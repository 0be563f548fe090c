import HostSheet.Proofs.Source.Indexing
import HostSheet.Proofs.Text.Words
import HostSheet.Source.IndexedText

/-!
# Lines

The lines of a text are its parts between line feeds, so a text without carriage returns is put
together from its lines again. The lines around a line are those of a window whose bounds are
clipped to the text and otherwise exact. Cutting the text at the starts of its lines, with bounds
that are words, gives the same lines.
-/

namespace HostSheet

-- ---------------------------------------------------------------------------
-- Words
-- ---------------------------------------------------------------------------

namespace Word

variable {a b : UInt64}

theorem toNat_greatest : greatest.toNat = UInt64.size - 1 := by
  decide

@[simp] theorem toNat_addSat (a b : UInt64) :
    (addSat a b).toNat = min (a.toNat + b.toNat) (UInt64.size - 1) := by
  have ha := a.toNat_lt
  have hb := b.toNat_lt
  have hsum := UInt64.toNat_add a b
  rw [addSat]
  split
  · rename_i hwraps
    rw [UInt64.lt_iff_toNat_lt] at hwraps
    rw [toNat_greatest, UInt64.size]
    omega
  · rename_i hfits
    rw [UInt64.lt_iff_toNat_lt] at hfits
    rw [UInt64.size]
    omega

@[simp] theorem toNat_subSat (a b : UInt64) : (subSat a b).toNat = a.toNat - b.toNat := by
  rw [subSat]
  split
  · rename_i hless
    rw [UInt64.lt_iff_toNat_lt] at hless
    exact (Nat.sub_eq_zero_of_le (Nat.le_of_lt hless)).symm
  · rename_i hle
    exact UInt64.toNat_sub_of_le _ _ (UInt64.not_lt.1 hle)

@[simp] theorem toNat_max (a b : UInt64) : (max a b).toNat = max a.toNat b.toNat := by
  change (if a ≤ b then b else a).toNat = _
  split
  · rename_i hle
    exact (Nat.max_eq_right (UInt64.le_iff_toNat_le.1 hle)).symm
  · rename_i hlt
    exact (Nat.max_eq_left (Nat.le_of_lt (UInt64.lt_iff_toNat_lt.1 (UInt64.not_le.1 hlt)))).symm

@[simp] theorem toNat_min (a b : UInt64) : (min a b).toNat = min a.toNat b.toNat := by
  change (if a ≤ b then a else b).toNat = _
  split
  · rename_i hle
    exact (Nat.min_eq_left (UInt64.le_iff_toNat_le.1 hle)).symm
  · rename_i hlt
    exact (Nat.min_eq_right (Nat.le_of_lt (UInt64.lt_iff_toNat_lt.1 (UInt64.not_le.1 hlt)))).symm

theorem map_toNat_upTo (first last : UInt64) :
    (upTo first last).map UInt64.toNat =
      List.range' first.toNat (last.toNat + 1 - first.toNat) := by
  have hlast := last.toNat_lt
  rw [upTo, List.map_map]
  refine (List.map_congr_left fun n hn => ?_).trans (List.map_id _)
  rw [List.mem_range'_1] at hn
  exact UInt64.toNat_ofNat_of_lt (by rw [UInt64.size]; omega)

end Word

-- ---------------------------------------------------------------------------
-- Parts between line feeds
-- ---------------------------------------------------------------------------

namespace Source

section
variable {s part lines rest : List Char}

def AtLineEnd (rest : List Char) : Prop :=
  rest = [] ∨ ∃ more, rest = '\n' :: more

theorem length_le_byteLength (s : List Char) : s.length ≤ byteLength s := by
  induction s with
  | nil => exact Nat.le_refl 0
  | cons c s ih =>
    have hpos := c.utf8Size_pos
    rw [List.length_cons, byteLength]
    omega

theorem intercalate_cons_append (first : List Char) (above : List (List Char)) (part : List Char)
    (below : List (List Char)) :
    ['\n'].intercalate (first :: (above ++ part :: below)) =
      first ++ ['\n'] ++ ['\n'].intercalate (above ++ part :: below) := by
  cases above <;> exact List.intercalate_cons_cons

theorem intercalate_feeds (above : List (List Char)) (part : List Char)
    (below : List (List Char)) :
    ['\n'].intercalate (above ++ part :: below) =
      above.flatMap (· ++ ['\n']) ++ (part ++ below.flatMap ('\n' :: ·)) := by
  induction above generalizing part with
  | nil =>
    induction below generalizing part with
    | nil => simp
    | cons next below ih => simpa using ih next
  | cons first above ih =>
    rw [List.cons_append, intercalate_cons_append, ih, List.flatMap_cons]
    simp only [List.append_assoc]

theorem wholeLines_flatMap (above : List (List Char)) :
    WholeLines (above.flatMap (· ++ ['\n'])) := by
  rcases List.eq_nil_or_concat above with rfl | ⟨above, part, rfl⟩
  · exact .inl rfl
  · exact .inr (by simp)

theorem count_flatMap {above : List (List Char)} (h : ∀ part ∈ above, '\n' ∉ part) :
    (above.flatMap (· ++ ['\n'])).count '\n' = above.length := by
  induction above with
  | nil => rfl
  | cons part above ih =>
    rw [List.forall_mem_cons] at h
    rw [List.flatMap_cons, List.count_append, List.count_append, List.count_eq_zero.2 h.1, ih h.2,
      List.count_singleton_self, List.length_cons, Nat.zero_add, Nat.add_comm]

theorem feed_not_mem_splitOn (h : part ∈ s.splitOn '\n') : '\n' ∉ part := by
  rw [List.splitOn_eq_splitOnP, ← Text.splitAtEach_eq_splitOnP] at h
  intro hfeed
  simpa using (Text.of_mem_splitAtEach h _ hfeed).1

/-- A part of a text stands behind as many whole lines as there are parts above it. -/
theorem exists_lines_of_part {i : Nat} (h : (s.splitOn '\n')[i]? = some part) :
    ∃ lines rest, WholeLines lines ∧ lines.count '\n' = i ∧ '\n' ∉ part ∧ AtLineEnd rest ∧
      lines ++ (part ++ rest) = s := by
  obtain ⟨hi, hpart⟩ := List.getElem?_eq_some_iff.1 h
  have hsplit : (s.splitOn '\n').take i ++ part :: (s.splitOn '\n').drop (i + 1) =
      s.splitOn '\n' := by
    rw [← hpart, List.getElem_cons_drop, List.take_append_drop]
  have htext := intercalate_feeds ((s.splitOn '\n').take i) part ((s.splitOn '\n').drop (i + 1))
  rw [hsplit, List.intercalate_splitOn] at htext
  refine ⟨_, _, wholeLines_flatMap _, ?_, feed_not_mem_splitOn (List.mem_of_getElem? h), ?_,
    htext.symm⟩
  · rw [count_flatMap fun part hmem => feed_not_mem_splitOn (List.mem_of_mem_take hmem),
      List.length_take_of_le (Nat.le_of_lt hi)]
  · cases (s.splitOn '\n').drop (i + 1) with
    | nil => exact .inl rfl
    | cons next below => exact .inr ⟨_, List.flatMap_cons⟩

end

end Source

-- ---------------------------------------------------------------------------
-- Starts of lines
-- ---------------------------------------------------------------------------

namespace LineStarts

variable {part lines rest : List Char}

theorem length_ofText (s : List Char) : (ofText s).offsets.size = s.count '\n' + 1 := by
  rw [ofText, List.size_toArray, List.length_cons, length_behindFeeds]

/-- The bytes of a part of a text are those between two starts of lines, or behind the last. -/
theorem range?_lines (hlines : Source.WholeLines lines) (hpart : '\n' ∉ part)
    (hrest : Source.AtLineEnd rest) :
    (ofText (lines ++ (part ++ rest))).range? (lines.count '\n' + 1)
        (Source.byteLength (lines ++ (part ++ rest))) =
      some (Source.byteLength lines, Source.byteLength lines + Source.byteLength part) := by
  have hoffsets (i : Nat) : (ofText (lines ++ (part ++ rest))).offsets[i]? =
      ((0 :: behindFeeds 0 lines) ++
        behindFeeds (Source.byteLength lines + Source.byteLength part) rest)[i]? := by
    rw [ofText, List.getElem?_toArray, behindFeeds_lines hpart]
  have hlength : (0 :: behindFeeds 0 lines).length = lines.count '\n' + 1 := by
    rw [List.length_cons, length_behindFeeds]
  have hstart : (ofText (lines ++ (part ++ rest))).offsets[lines.count '\n']? =
      some (Source.byteLength lines) := by
    have hget := getD_starts_lines hlines
      (behindFeeds (Source.byteLength lines + Source.byteLength part) rest)
    rw [hoffsets, List.getElem?_append_left (by omega)]
    rw [List.getD_append _ _ _ _ (by omega), List.getD_eq_getElem _ _ (by omega)] at hget
    rw [List.getElem?_eq_getElem (by omega), hget]
  have hstop : (ofText (lines ++ (part ++ rest))).offsets[lines.count '\n' + 1]?.elim
      (Source.byteLength (lines ++ (part ++ rest))) (· - 1) =
        Source.byteLength lines + Source.byteLength part := by
    rw [hoffsets, ← hlength, List.getElem?_append_right (Nat.le_refl _), Nat.sub_self,
      Source.byteLength_append, Source.byteLength_append]
    rcases hrest with rfl | ⟨more, rfl⟩ <;> rfl
  rw [range?, if_neg (Nat.succ_ne_zero _), Nat.add_sub_cancel, hstart, ← hstop]
  rfl

end LineStarts

-- ---------------------------------------------------------------------------
-- Lines of a source
-- ---------------------------------------------------------------------------

namespace SourceText

section
variable {s : SourceText} {n : Nat}

def lastFeed (s : SourceText) : Nat :=
  if s.content.getLast? = some '\n' then 1 else 0

theorem rawLines_eq (s : SourceText) :
    s.rawLines = (s.content.splitOn '\n').take ((s.content.splitOn '\n').length - s.lastFeed) := by
  rw [rawLines, Text.splitAtEach_eq_splitOnP, ← List.splitOn_eq_splitOnP, lastFeed]
  split
  · exact List.dropLast_eq_take
  · exact (List.take_length).symm

theorem lineCount_eq (s : SourceText) :
    s.lineCount = (s.content.splitOn '\n').length - s.lastFeed := by
  rw [lineCount, rawLines_eq, List.length_take_of_le (Nat.sub_le _ _)]

theorem line?_succ (s : SourceText) (n : Nat) : s.line? (n + 1) = s.lines[n]? := by
  rw [line?, if_neg (Nat.succ_ne_zero n), Nat.add_sub_cancel]

theorem isSome_line? : (s.line? n).isSome = true ↔ 1 ≤ n ∧ n ≤ s.lineCount := by
  cases n with
  | zero => simp [line?]
  | succ n => rw [line?_succ, isSome_getElem?, length_lines]; omega

theorem line?_eq_part (hpos : 1 ≤ n) (h : n ≤ s.lineCount) :
    s.line? n =
      ((s.content.splitOn '\n')[n - 1]?).map fun part => String.ofList (dropReturn part) := by
  obtain ⟨n, rfl⟩ := Nat.exists_eq_add_of_le' hpos
  rw [lineCount_eq] at h
  rw [line?_succ, lines, List.getElem?_map, rawLines_eq, List.getElem?_take_of_lt h,
    Nat.add_sub_cancel]

theorem dropReturn_cases (part : List Char) :
    part = dropReturn part ++ ['\r'] ∨ part = dropReturn part ∧ part.getLast? ≠ some '\r' := by
  rw [dropReturn]
  split
  · rename_i hreturn
    exact .inl (List.dropLast_append_getLast? _ hreturn).symm
  · rename_i hnone
    exact .inr ⟨rfl, hnone⟩

theorem intercalate_rawLines (s : SourceText) :
    ['\n'].intercalate s.rawLines ++ (if s.content.getLast? = some '\n' then ['\n'] else []) =
      s.content := by
  rw [rawLines, Text.splitAtEach_eq_splitOnP]
  split
  · rename_i hends
    obtain ⟨xs, hxs⟩ := List.getLast?_eq_some_iff.1 hends
    have hsplit : (xs ++ ['\n']).splitOnP (· == '\n') = xs.splitOnP (· == '\n') ++ [[]] :=
      List.splitOnP_append_cons xs [] (beq_self_eq_true '\n')
    rw [hxs, hsplit, List.dropLast_concat, ← List.splitOn_eq_splitOnP, List.intercalate_splitOn]
  · rw [← List.splitOn_eq_splitOnP, List.intercalate_splitOn, List.append_nil]

theorem lines_of_no_return (h : '\r' ∉ s.content) : s.lines = s.rawLines.map String.ofList := by
  refine List.map_congr_left fun part hpart => ?_
  have hmem : part ∈ Text.splitAtEach (· == '\n') s.content := by
    rw [rawLines_eq, List.splitOn_eq_splitOnP, ← Text.splitAtEach_eq_splitOnP] at hpart
    exact List.mem_of_mem_take hpart
  rcases dropReturn_cases part with hreturn | ⟨hpart, -⟩
  · have hlast : '\r' ∈ part := hreturn ▸ List.mem_append_right _ (List.mem_singleton_self _)
    exact absurd (Text.of_mem_splitAtEach hmem _ hlast).2 h
  · rw [← hpart]

theorem intercalate_lines (h : '\r' ∉ s.content) :
    "\n".intercalate s.lines ++ (if s.content.getLast? = some '\n' then "\n" else "") =
      String.ofList s.content := by
  have hlines : "\n".intercalate s.lines = String.ofList (['\n'].intercalate s.rawLines) := by
    rw [lines_of_no_return h, ← String.toList_inj, String.toList_intercalate, List.map_map,
      String.toList_ofList]
    simp [Function.comp_def]
  have htext := congrArg String.ofList s.intercalate_rawLines
  rw [String.ofList_append, ← hlines] at htext
  rw [← htext]
  split <;> rfl

theorem map_some_lines {above count : Nat} (h : count ≤ s.lineCount - above) :
    ((s.lines.drop above).take count).map some =
      (List.range' (above + 1) count).map s.line? := by
  rw [← length_lines] at h
  refine List.ext_getElem (by simpa using h) fun i hi _ => ?_
  rw [List.length_map, List.length_take_of_le (by rwa [List.length_drop])] at hi
  rw [List.getElem_map, List.getElem_take, List.getElem_drop, List.getElem_map,
    List.getElem_range', Nat.one_mul, Nat.add_right_comm, line?_succ,
    List.getElem?_eq_getElem (by omega)]

theorem filterMap_line? {numbers : List Nat} {texts : List String}
    (h : texts.map some = numbers.map s.line?) : numbers.filterMap s.line? = texts := by
  have hid := congrArg (List.filterMap id) h
  rw [List.filterMap_map, List.filterMap_map] at hid
  exact hid.symm.trans (List.filterMap_some)

theorem filterMap_range' (s : SourceText) :
    (List.range' 1 s.lineCount).filterMap s.line? = s.lines := by
  have hall : ((s.lines.drop 0).take s.lineCount).map some =
      (List.range' (0 + 1) s.lineCount).map s.line? := map_some_lines (Nat.le_refl _)
  rw [List.drop_zero, List.take_of_length_le (Nat.le_of_eq s.length_lines)] at hall
  exact filterMap_line? hall

theorem map_some_context (s : SourceText) (line radius : Nat) :
    let first := max (line - radius) 1
    let last := min (line + radius) s.lineCount
    (s.context line radius).map some =
      (List.range' first (last + 1 - first)).map s.line? := by
  intro first last
  have hfirst : first - 1 + 1 = first := Nat.sub_add_cancel (Nat.le_max_right _ _)
  have hclipped : last + 1 - first ≤ s.lineCount - (first - 1) := by omega
  rw [context, map_some_lines hclipped, hfirst]

theorem context_clipped (s : SourceText) (line radius : Nat) :
    let first : Int := max 1 (line - radius)
    let last : Int := min s.lineCount (line + radius)
    (s.context line radius).map some =
      (List.range (last + 1 - first).toNat).map (fun i => s.line? (first.toNat + i)) ∧
    (last < first → s.context line radius = []) := by
  intro first last
  have hfirst : max (line - radius) 1 = first.toNat := by omega
  have hcount : min (line + radius) s.lineCount + 1 - first.toNat = (last + 1 - first).toNat := by
    omega
  have hcontext := s.map_some_context line radius
  simp only [hfirst, hcount, List.range'_eq_map_range, List.map_map] at hcontext
  refine ⟨hcontext, fun hmisses => ?_⟩
  have hnone : (last + 1 - first).toNat = 0 := by omega
  rw [hnone] at hcontext
  exact List.map_eq_nil_iff.1 hcontext

end

end SourceText

-- ---------------------------------------------------------------------------
-- Lines of an indexed text
-- ---------------------------------------------------------------------------

namespace IndexedText

variable (t : IndexedText)

theorem count_lt : t.content.count '\n' + 1 < UInt64.size := by
  have hcount : t.content.count '\n' < 9223372036854775808 :=
    Nat.lt_of_le_of_lt (Nat.le_trans List.count_le_length (Source.length_le_byteLength t.content))
      t.byteLength_lt
  rw [UInt64.size]
  omega

theorem toNat_size : (UInt64.ofNat t.starts.offsets.size).toNat = t.content.count '\n' + 1 := by
  rw [t.starts_eq, LineStarts.length_ofText]
  exact UInt64.toNat_ofNat_of_lt t.count_lt

theorem toNat_lineCount : t.lineCount.toNat = t.toSourceText.lineCount := by
  have hsize := t.toNat_size
  rw [lineCount]
  split
  · rename_i hends
    rw [t.lineCount_of_ends hends, UInt64.toNat_sub_of_le _ _ ?_, hsize]
    · rfl
    · rw [UInt64.le_iff_toNat_le, hsize]
      exact Nat.le_add_left _ _
  · rename_i hends
    rw [t.lineCount_of_not_ends hends, hsize]

theorem line?_eq (n : UInt64) : t.line? n = t.toSourceText.line? n.toNat := by
  have hbehind : t.lineCount < n ↔ t.toSourceText.lineCount < n.toNat := by
    rw [UInt64.lt_iff_toNat_lt, t.toNat_lineCount]
  by_cases hn : 1 ≤ n.toNat ∧ n.toNat ≤ t.toSourceText.lineCount
  · obtain ⟨text, hline⟩ := Option.isSome_iff_exists.1 (SourceText.isSome_line?.2 hn)
    rw [SourceText.line?_eq_part hn.1 hn.2] at hline
    obtain ⟨part, hpart, -⟩ := Option.map_eq_some_iff.1 hline
    obtain ⟨lines, rest, hlines, hcount, hfeed, hrest, htext⟩ := Source.exists_lines_of_part hpart
    have hrange := LineStarts.range?_lines hlines hfeed hrest
    rw [htext, hcount, Nat.sub_add_cancel hn.1, ← t.starts_eq] at hrange
    have hslice := Source.slice?_behind lines part rest
    rw [htext] at hslice
    rw [line?, if_neg (hbehind.not.2 (Nat.not_lt.2 hn.2)), hrange,
      SourceText.line?_eq_part hn.1 hn.2, hpart]
    simp [hslice]
  · have hnone : t.toSourceText.line? n.toNat = none := by
      rwa [← Option.not_isSome_iff_eq_none, SourceText.isSome_line?]
    rw [line?, hnone]
    split
    · rfl
    · rename_i hfront
      have hzero : n.toNat = 0 := by
        have := hbehind.not.1 hfront
        omega
      rw [hzero]
      rfl

/-- Where the bounds of a window stop at the ends of the range of words, they are clipped anyway. -/
theorem context_eq (line radius : UInt64) :
    t.context line radius = t.toSourceText.context line.toNat radius.toNat := by
  have hlines : t.line? = t.toSourceText.line? ∘ UInt64.toNat := funext t.line?_eq
  have hwords : t.toSourceText.lineCount ≤ UInt64.size - 1 := by
    rw [← t.toNat_lineCount]
    exact Nat.le_sub_one_of_lt t.lineCount.toNat_lt
  have hlast : min (min (line.toNat + radius.toNat) (UInt64.size - 1)) t.toSourceText.lineCount =
      min (line.toNat + radius.toNat) t.toSourceText.lineCount := by omega
  rw [context, hlines, ← List.filterMap_map, Word.map_toNat_upTo, Word.toNat_max,
    Word.toNat_subSat, Word.toNat_min, Word.toNat_addSat, t.toNat_lineCount, hlast]
  exact SourceText.filterMap_line? (t.toSourceText.map_some_context line.toNat radius.toNat)

end IndexedText

/-- The lines of a text are numbered from one. They are its parts between line feeds, without one
carriage return at the end; an empty part behind a last line feed is no line. So a text without
carriage returns is put together from its lines. The lines around a line are exactly those from
`line - radius` to `line + radius` that the text has, in their order. An indexed text counts, finds
and gives the same lines, whatever words it is asked for. -/
theorem SourceText.lines_exact (s : SourceText) :
    let parts := s.content.splitOn '\n'
    let endsWithFeed := s.content.getLast? = some '\n'
    s.lineCount = parts.length - (if endsWithFeed then 1 else 0) ∧
    (∀ n, (s.line? n).isSome = true ↔ 1 ≤ n ∧ n ≤ s.lineCount) ∧
    (∀ n text, s.line? n = some text → ∃ part line, parts[n - 1]? = some part ∧
      text = String.ofList line ∧
      (part = line ++ ['\r'] ∨ part = line ∧ part.getLast? ≠ some '\r')) ∧
    ('\r' ∉ s.content →
      "\n".intercalate ((List.range' 1 s.lineCount).filterMap s.line?) ++
        (if endsWithFeed then "\n" else "") = String.ofList s.content) ∧
    (∀ line radius : Nat,
      let first : Int := max 1 (line - radius)
      let last : Int := min s.lineCount (line + radius)
      (s.context line radius).map some =
        (List.range (last + 1 - first).toNat).map (fun i => s.line? (first.toNat + i)) ∧
      (last < first → s.context line radius = [])) ∧
    ∀ t : IndexedText, t.toSourceText = s →
      t.lineCount.toNat = s.lineCount ∧ (∀ n, t.line? n = s.line? n.toNat) ∧
      ∀ line radius, t.context line radius = s.context line.toNat radius.toNat := by
  intro parts endsWithFeed
  refine ⟨s.lineCount_eq, fun n => isSome_line?, fun n text hline => ?_, fun h => ?_,
    s.context_clipped, ?_⟩
  · obtain ⟨hpos, hle⟩ := isSome_line?.1 (Option.isSome_of_mem hline)
    rw [line?_eq_part hpos hle] at hline
    obtain ⟨part, hpart, rfl⟩ := Option.map_eq_some_iff.1 hline
    exact ⟨part, dropReturn part, hpart, rfl, dropReturn_cases part⟩
  · rw [filterMap_range', intercalate_lines h]
  · rintro t rfl
    exact ⟨t.toNat_lineCount, t.line?_eq, t.context_eq⟩

-- The upper bound of this window is no word.
example :
    let t := IndexedText.ofSource (.ofString "" "é\r\n\nb\n") (by decide)
    t.lineCount = 3 ∧ t.context 2 Word.greatest = ["é", "", "b"] ∧ t.line? 4 = none := by
  decide +kernel

end HostSheet

import HostSheet.Proofs.Source.Slicing
import HostSheet.Source.LineStarts
import Mathlib.Data.List.DropRight
import Mathlib.Data.List.GetD

/-!
# Locations by the starts of lines

The starts of the lines of a text locate every offset as a walk over the text does. An offset that
cuts the text is located by the text in front of it: its line feeds, and the characters of its last
line. So of two such offsets the one that is further on has the later location.
-/

namespace HostSheet

/-- Further up, or on the same line and further to the left. -/
def Location.Before (l m : Location) : Prop :=
  l.line < m.line ∨ l.line = m.line ∧ l.column < m.column

theorem Location.Before.ne {l m : Location} (h : l.Before m) : l ≠ m := by
  rintro rfl
  rcases h with h | ⟨-, h⟩ <;> exact Nat.lt_irrefl _ h

namespace Source

-- ---------------------------------------------------------------------------
-- Last lines
-- ---------------------------------------------------------------------------

def lastLine (s : List Char) : List Char :=
  s.rtakeWhile (· != '\n')

section
variable {a b s lines last rest : List Char}

theorem feed_not_mem_lastLine (s : List Char) : '\n' ∉ lastLine s := by
  intro h
  simpa using List.mem_rtakeWhile_imp h

def WholeLines (s : List Char) : Prop :=
  s = [] ∨ s.getLast? = some '\n'

theorem exists_lines (s : List Char) : ∃ lines, WholeLines lines ∧ lines ++ lastLine s = s := by
  refine ⟨s.rdropWhile (· != '\n'), ?_, List.rdropWhile_append_rtakeWhile⟩
  by_cases hnil : s.rdropWhile (· != '\n') = []
  · exact .inl hnil
  · have hlast := List.rdropWhile_last_not (· != '\n') s hnil
    rw [WholeLines, List.getLast?_eq_some_getLast hnil]
    exact .inr (congrArg some (by simpa using hlast))

theorem count_lastLine (s : List Char) : (lastLine s).count '\n' = 0 :=
  List.count_eq_zero.2 (feed_not_mem_lastLine s)

theorem lastLine_append (hb : '\n' ∉ b) : lastLine (a ++ b) = lastLine a ++ b := by
  induction b using List.reverseRecOn with
  | nil => rw [List.append_nil, List.append_nil]
  | append_singleton b c ih =>
    rw [List.mem_append, not_or, List.mem_singleton] at hb
    have hc : (c != '\n') = true := bne_iff_ne.2 (Ne.symm hb.2)
    rw [← List.append_assoc, lastLine, List.rtakeWhile_concat_pos (· != '\n') _ c hc, ← lastLine,
      ih hb.1, List.append_assoc]

-- ---------------------------------------------------------------------------
-- Walks
-- ---------------------------------------------------------------------------

def InFirst (left : Nat) (s : List Char) : Prop :=
  ∀ c ∈ s.head?, left < c.utf8Size

def columnAt (last : List Char) (left : Nat) : Nat :=
  if left = 0 then last.length else byteLength last + left

/-- Every offset is behind whole lines and a part of a line, and in the character behind these. -/
theorem exists_lines_at (s : List Char) (offset : Nat) :
    ∃ lines last rest left, WholeLines lines ∧ '\n' ∉ last ∧ InFirst left rest ∧
      lines ++ (last ++ rest) = s ∧ byteLength lines + (byteLength last + left) = offset := by
  have hcut : ∃ front rest left, InFirst left rest ∧ front ++ rest = s ∧
      byteLength front + left = offset := by
    induction s generalizing offset with
    | nil => exact ⟨[], [], offset, by simp [InFirst], rfl, Nat.zero_add _⟩
    | cons c s ih =>
      by_cases hfirst : offset < c.utf8Size
      · exact ⟨[], c :: s, offset, by simpa [InFirst] using hfirst, rfl, Nat.zero_add _⟩
      · obtain ⟨front, rest, left, hleft, hs, hoffset⟩ := ih (offset - c.utf8Size)
        refine ⟨c :: front, rest, left, hleft, congrArg (c :: ·) hs, ?_⟩
        rw [byteLength]
        omega
  obtain ⟨front, rest, left, hleft, hs, hoffset⟩ := hcut
  obtain ⟨lines, hlines, hfront⟩ := exists_lines front
  refine ⟨lines, lastLine front, rest, left, hlines, feed_not_mem_lastLine front, hleft, ?_, ?_⟩
  · rw [← List.append_assoc, hfront, hs]
  · rw [← Nat.add_assoc, ← byteLength_append, hfront, hoffset]

theorem walk_line {line column byte left : Nat} (hlast : '\n' ∉ last) (hleft : InFirst left rest) :
    walk line column byte (byteLength last + left) (last ++ rest) =
      ⟨line, if left = 0 then column + last.length else byte + byteLength last + left⟩ := by
  induction last generalizing column byte with
  | nil =>
    rw [byteLength, Nat.zero_add, List.nil_append]
    by_cases hzero : left = 0
    · rw [hzero, walk_zero, if_pos rfl]
      rfl
    · rw [if_neg hzero]
      cases rest with
      | nil => rw [walk, if_neg hzero]; rfl
      | cons c rest => rw [walk, if_neg hzero, if_pos (hleft c rfl)]; rfl
  | cons c last ih =>
    rw [List.mem_cons, not_or] at hlast
    rw [byteLength, Nat.add_assoc, List.cons_append, walk_cons_add, if_neg (Ne.symm hlast.1),
      ih hlast.2, List.length_cons]
    grind

-- ---------------------------------------------------------------------------
-- Slices
-- ---------------------------------------------------------------------------

theorem slice?_behind (lines last rest : List Char) :
    slice? (lines ++ (last ++ rest)) (byteLength lines) (byteLength lines + byteLength last) =
      some last := by
  rw [slice?, ← byteLength_append, ← List.append_assoc, sliceTo?_append]
  exact sliceFrom?_append lines last

theorem cut?_inside {left : Nat} (hleft : InFirst left rest) (hne : left ≠ 0) (front : List Char) :
    cut? (front ++ rest) (byteLength front + left) = none := by
  induction front with
  | nil =>
    rw [byteLength, Nat.zero_add, List.nil_append]
    cases rest with
    | nil => rw [cut?, if_neg hne]
    | cons c rest => rw [cut?, if_neg hne, if_pos (hleft c rfl)]
  | cons c front ih =>
    have hpos := c.utf8Size_pos
    rw [List.cons_append, byteLength, cut?, if_neg (by omega), if_neg (by omega), Nat.add_assoc,
      Nat.add_sub_cancel_left, ih]
    rfl

theorem slice?_inside {left : Nat} (hleft : InFirst left rest) (hne : left ≠ 0)
    (front : List Char) (start : Nat) :
    slice? (front ++ rest) start (byteLength front + left) = none := by
  rw [slice?, sliceTo?, cut?_inside hleft hne]
  rfl

theorem locate_lines {left : Nat} (hlines : WholeLines lines) (hlast : '\n' ∉ last)
    (hleft : InFirst left rest) :
    locate (lines ++ (last ++ rest)) (byteLength lines + (byteLength last + left)) =
      ⟨lines.count '\n' + 1, columnAt last left + 1⟩ := by
  have hline : locate (last ++ rest) (byteLength last + left) = ⟨1, columnAt last left + 1⟩ := by
    rw [locate, walk_line hlast hleft, columnAt]
    grind
  rcases hlines with rfl | hlines
  · rw [List.nil_append, byteLength, Nat.zero_add, hline]
    rfl
  · rw [locate_behind hlines, hline, Location.below, Nat.add_comm]

end

end Source

-- ---------------------------------------------------------------------------
-- Searches
-- ---------------------------------------------------------------------------

namespace LineStarts

section
variable {starts : LineStarts} {offset n : Nat}

/-- Among offsets that go up, the search comes to the last one that is not too far. -/
theorem last_search {low high : Nat}
    (hup : ∀ i j, i < j → j < starts.offsets.size →
      starts.offsets.getD i 0 < starts.offsets.getD j 0)
    (hbelow : ∀ i < n, starts.offsets.getD i 0 ≤ offset)
    (habove : ∀ i, n ≤ i → i < starts.offsets.size → offset < starts.offsets.getD i 0)
    (hn : 0 < n) (hlow : low ≤ n) (hhigh : n ≤ high) (hsize : high ≤ starts.offsets.size) :
    (starts.search offset low high).last + 1 = n := by
  fun_induction search starts offset low high with
  | case1 low high hlt middle start hfound =>
    have hmiddle : middle < n := by
      by_contra hge
      exact Nat.ne_of_gt (habove middle (Nat.le_of_not_lt hge) (by omega)) hfound
    -- What stands behind the offset itself is too far.
    have hlast : n ≤ middle + 1 := by
      by_contra hmore
      have hnext := hup middle (middle + 1) (Nat.lt_succ_self _) (by omega)
      have := hbelow (middle + 1) (by omega)
      omega
    exact Nat.le_antisymm hmiddle hlast
  | case2 low high hlt middle start hne hless ih =>
    refine ih ?_ hhigh hsize
    by_contra hge
    have := habove middle (by omega) (by omega)
    omega
  | case3 low high hlt middle start hne hmore ih =>
    refine ih hlow ?_ (by omega)
    by_contra hlt
    have := hbelow middle (by omega)
    omega
  | case4 low high hge =>
    rw [Finding.last]
    omega

/-- The offset is in the line of the last start that is not too far. -/
theorem lineIndex_of_split {near far : List Nat} (hstarts : starts.offsets = (near ++ far).toArray)
    (hup : (near ++ far).Pairwise (· < ·)) (hnear : ∀ start ∈ near, start ≤ offset)
    (hfar : ∀ start ∈ far, offset < start) (hne : near ≠ []) :
    starts.lineIndex offset + 1 = near.length := by
  have hsize : starts.offsets.size = near.length + far.length := by
    rw [hstarts, List.size_toArray, List.length_append]
  have hget : ∀ i, starts.offsets.getD i 0 = (near ++ far).getD i 0 := by
    simp [hstarts]
  rw [lineIndex, hsize]
  refine last_search ?_ ?_ ?_ (List.length_pos_of_ne_nil hne) (Nat.zero_le _)
    (Nat.le_add_right _ _) (Nat.le_of_eq hsize.symm)
  · intro i j hij hj
    rw [hsize, ← List.length_append] at hj
    rw [hget, hget, List.getD_eq_getElem _ _ (Nat.lt_trans hij hj), List.getD_eq_getElem _ _ hj]
    exact List.pairwise_iff_getElem.1 hup i j _ hj hij
  · intro i hi
    rw [hget, List.getD_append _ _ _ _ hi, List.getD_eq_getElem _ _ hi]
    exact hnear _ (List.getElem_mem hi)
  · intro i hi hisize
    have hfarther : i - near.length < far.length := by omega
    rw [hget, List.getD_append_right _ _ _ _ hi, List.getD_eq_getElem _ _ hfarther]
    exact hfar _ (List.getElem_mem hfarther)

end

-- ---------------------------------------------------------------------------
-- The starts of a text
-- ---------------------------------------------------------------------------

section
variable {a b s lines last rest : List Char} {byte offset left : Nat}

theorem behindFeeds_append (byte : Nat) (a b : List Char) :
    behindFeeds byte (a ++ b) =
      behindFeeds byte a ++ behindFeeds (byte + Source.byteLength a) b := by
  induction a generalizing byte with
  | nil => rfl
  | cons c a ih =>
    rw [List.cons_append, behindFeeds, behindFeeds, ih, Source.byteLength, Nat.add_assoc]
    split <;> rfl

theorem behindFeeds_eq_nil (byte : Nat) (h : '\n' ∉ s) : behindFeeds byte s = [] := by
  induction s generalizing byte with
  | nil => rfl
  | cons c s ih =>
    rw [List.mem_cons, not_or] at h
    rw [behindFeeds, if_neg (Ne.symm h.1), ih _ h.2]

theorem length_behindFeeds (byte : Nat) (s : List Char) :
    (behindFeeds byte s).length = s.count '\n' := by
  induction s generalizing byte with
  | nil => rfl
  | cons c s ih =>
    rw [behindFeeds, List.count_cons]
    split
    · rename_i hc
      rw [List.length_cons, ih, if_pos (by simpa using hc)]
    · rename_i hc
      rw [ih, if_neg (by simpa using hc), Nat.add_zero]

theorem pairwise_starts (byte : Nat) (s : List Char) :
    (byte :: behindFeeds byte s).Pairwise (· < ·) := by
  induction s generalizing byte with
  | nil => simp [behindFeeds]
  | cons c s ih =>
    have hmore := ih (byte + c.utf8Size)
    have hpos := c.utf8Size_pos
    rw [behindFeeds]
    split
    · rename_i hc
      subst hc
      refine .cons (List.forall_mem_cons.2 ⟨Nat.lt_succ_self _, fun start h => ?_⟩) hmore
      exact Nat.lt_trans (Nat.lt_succ_self _) (List.rel_of_pairwise_cons hmore h)
    · refine .cons (fun start h => ?_) hmore.of_cons
      exact Nat.lt_trans (Nat.lt_add_of_pos_right hpos) (List.rel_of_pairwise_cons hmore h)

theorem mem_behindFeeds_cons {c : Char} {start : Nat} :
    start ∈ behindFeeds byte (c :: s) ↔
      c = '\n' ∧ start = byte + c.utf8Size ∨ start ∈ behindFeeds (byte + c.utf8Size) s := by
  rw [behindFeeds]
  split
  · rename_i hc
    subst hc
    rw [List.mem_cons, and_iff_right rfl]
    rfl
  · rename_i hc
    rw [or_iff_right fun h => hc h.1]

theorem lt_of_mem_behindFeeds {start : Nat} (hleft : Source.InFirst left s)
    (h : start ∈ behindFeeds byte s) : byte + left < start := by
  cases s with
  | nil => cases h
  | cons c s =>
    have hfirst : byte + left < byte + c.utf8Size := Nat.add_lt_add_left (hleft c rfl) _
    rcases mem_behindFeeds_cons.1 h with ⟨-, rfl⟩ | h
    · exact hfirst
    · exact Nat.lt_trans hfirst (List.rel_of_pairwise_cons (pairwise_starts _ s) h)

theorem getD_starts_lines (hlines : Source.WholeLines lines) (more : List Nat) :
    ((0 :: behindFeeds 0 lines) ++ more).getD (lines.count '\n') 0 = Source.byteLength lines := by
  rcases hlines with rfl | hlines
  · rfl
  · obtain ⟨xs, rfl⟩ := List.getLast?_eq_some_iff.1 hlines
    have hlength : (0 :: behindFeeds 0 xs).length = (xs ++ ['\n']).count '\n' := by
      rw [List.length_cons, length_behindFeeds, List.count_append, List.count_singleton_self]
    rw [behindFeeds_append, ← List.cons_append, List.append_assoc, ← hlength,
      List.getD_append_right _ _ _ _ (Nat.le_refl _), Nat.sub_self, Source.byteLength_append,
      Nat.zero_add]
    rfl

theorem getD_ofText (s : List Char) (i : Nat) :
    (ofText s).offsets.getD i 0 = (0 :: behindFeeds 0 s).getD i 0 := by
  simp [ofText]

theorem behindFeeds_lines (hlast : '\n' ∉ last) (lines rest : List Char) :
    0 :: behindFeeds 0 (lines ++ (last ++ rest)) =
      (0 :: behindFeeds 0 lines) ++
        behindFeeds (Source.byteLength lines + Source.byteLength last) rest := by
  rw [behindFeeds_append, behindFeeds_append, behindFeeds_eq_nil _ hlast, List.nil_append,
    Nat.zero_add, List.cons_append]

theorem le_of_mem_behindFeeds {start : Nat} (h : start ∈ behindFeeds byte s) :
    start ≤ byte + Source.byteLength s := by
  induction s generalizing byte with
  | nil => cases h
  | cons c s ih =>
    rcases mem_behindFeeds_cons.1 h with ⟨-, rfl⟩ | h
    · exact Nat.add_le_add_left (Nat.le_add_right _ _) _
    · exact Nat.le_trans (ih h) (Nat.le_of_eq (Nat.add_assoc ..))

theorem lineIndex_lines (lines : List Char) (hlast : '\n' ∉ last)
    (hleft : Source.InFirst left rest) :
    (ofText (lines ++ (last ++ rest))).lineIndex
      (Source.byteLength lines + (Source.byteLength last + left)) = lines.count '\n' := by
  have hstarts := behindFeeds_lines hlast lines rest
  have hup := pairwise_starts 0 (lines ++ (last ++ rest))
  rw [hstarts] at hup
  have hnear : ∀ start ∈ 0 :: behindFeeds 0 lines,
      start ≤ Source.byteLength lines + (Source.byteLength last + left) := by
    refine List.forall_mem_cons.2 ⟨Nat.zero_le _, fun start h => ?_⟩
    have := le_of_mem_behindFeeds h
    omega
  have hfar : ∀ start ∈ behindFeeds (Source.byteLength lines + Source.byteLength last) rest,
      Source.byteLength lines + (Source.byteLength last + left) < start := fun start h =>
    Nat.add_assoc .. ▸ lt_of_mem_behindFeeds hleft h
  have hoffsets : (ofText (lines ++ (last ++ rest))).offsets = (0 :: behindFeeds 0 lines ++
      behindFeeds (Source.byteLength lines + Source.byteLength last) rest).toArray :=
    congrArg List.toArray hstarts
  have hline := lineIndex_of_split hoffsets hup hnear hfar (List.cons_ne_nil _ _)
  rw [List.length_cons, length_behindFeeds] at hline
  exact Nat.succ.inj hline

theorem locate_lines (hlines : Source.WholeLines lines) (hlast : '\n' ∉ last)
    (hleft : Source.InFirst left rest) :
    (ofText (lines ++ (last ++ rest))).locate (lines ++ (last ++ rest))
        (Source.byteLength lines + (Source.byteLength last + left)) =
      ⟨lines.count '\n' + 1, Source.columnAt last left + 1⟩ := by
  have hstart : (ofText (lines ++ (last ++ rest))).offsets.getD (lines.count '\n') 0 =
      Source.byteLength lines := by
    rw [getD_ofText, behindFeeds_lines hlast, getD_starts_lines hlines]
  rw [locate, lineIndex_lines lines hlast hleft, hstart, Source.columnAt]
  by_cases hzero : left = 0
  · rw [hzero, Nat.add_zero, Source.slice?_behind, if_pos rfl]
  · rw [← Nat.add_assoc, ← Source.byteLength_append, ← List.append_assoc,
      Source.slice?_inside hleft hzero, if_neg hzero, Source.byteLength_append, Nat.add_assoc,
      Nat.add_sub_cancel_left]

theorem locate_ofText (s : List Char) (offset : Nat) :
    (ofText s).locate s offset = Source.locate s offset := by
  obtain ⟨lines, last, rest, left, hlines, hlast, hleft, rfl, rfl⟩ :=
    Source.exists_lines_at s offset
  rw [locate_lines hlines hlast hleft, Source.locate_lines hlines hlast hleft]

end

end LineStarts

-- ---------------------------------------------------------------------------
-- Boundaries
-- ---------------------------------------------------------------------------

namespace Source

section
variable {a b s : List Char}

theorem locate_front (front rest : List Char) :
    locate (front ++ rest) (byteLength front) =
      ⟨front.count '\n' + 1, (lastLine front).length + 1⟩ := by
  obtain ⟨lines, hlines, hfront⟩ := exists_lines front
  have hinside : InFirst 0 rest := fun c _ => c.utf8Size_pos
  have hlocate := locate_lines hlines (feed_not_mem_lastLine front) hinside
  rw [← List.append_assoc, Nat.add_zero, ← byteLength_append, hfront] at hlocate
  have hcount : front.count '\n' = lines.count '\n' := calc
    front.count '\n' = (lines ++ lastLine front).count '\n' := by rw [hfront]
    _ = lines.count '\n' := by rw [List.count_append, count_lastLine, Nat.add_zero]
  rw [hlocate, hcount, columnAt, if_pos rfl]

theorem locate_before (front mid rest : List Char) (h : mid ≠ []) :
    (locate (front ++ (mid ++ rest)) (byteLength front)).Before
      (locate (front ++ (mid ++ rest)) (byteLength (front ++ mid))) := by
  rw [locate_front, ← List.append_assoc, locate_front]
  by_cases hmid : '\n' ∈ mid
  · have hcount := List.count_pos_iff.2 hmid
    rw [List.count_append]
    exact .inl (Nat.add_lt_add_right (Nat.lt_add_of_pos_right hcount) 1)
  · have hlength := List.length_pos_of_ne_nil h
    rw [List.count_append, List.count_eq_zero.2 hmid, lastLine_append hmid, List.length_append]
    exact .inr ⟨rfl, Nat.add_lt_add_right (Nat.lt_add_of_pos_right hlength) 1⟩

end

section
variable {source : String} {offset offset' : Nat}

theorem exists_front (h : (String.Pos.Raw.mk offset).IsValid source) :
    ∃ front rest : String, front ++ rest = source ∧ front.utf8ByteSize = offset := by
  obtain ⟨front, rest, hsource, hoffset⟩ := String.Pos.Raw.isValid_iff_exists_append.1 h
  exact ⟨front, rest, hsource.symm, congrArg String.Pos.Raw.byteIdx hoffset.symm⟩

theorem locate_lt (h : (String.Pos.Raw.mk offset).IsValid source)
    (h' : (String.Pos.Raw.mk offset').IsValid source) (hlt : offset < offset') :
    (locate source.toList offset).Before (locate source.toList offset') := by
  obtain ⟨front, rest, hsource, rfl⟩ := exists_front h
  obtain ⟨front', rest', hsource', rfl⟩ := exists_front h'
  rw [← byteLength_toList, ← byteLength_toList] at hlt ⊢
  have hfront : front.toList <+: source.toList :=
    ⟨rest.toList, by rw [← hsource, String.toList_append]⟩
  have hfront' : front'.toList <+: source.toList :=
    ⟨rest'.toList, by rw [← hsource', String.toList_append]⟩
  obtain ⟨mid, hmid⟩ | ⟨mid, hmid⟩ := List.prefix_or_prefix_of_prefix hfront hfront'
  · have hne : mid ≠ [] := by
      rintro rfl
      rw [List.append_nil] at hmid
      exact Nat.ne_of_lt hlt (congrArg byteLength hmid)
    have hbefore := locate_before front.toList mid rest'.toList hne
    rwa [← List.append_assoc, hmid, ← String.toList_append, hsource'] at hbefore
  · rw [← hmid, byteLength_append] at hlt
    omega

/-- No two boundaries share a location. -/
theorem locate_inj (h : (String.Pos.Raw.mk offset).IsValid source)
    (h' : (String.Pos.Raw.mk offset').IsValid source) :
    locate source.toList offset = locate source.toList offset' ↔ offset = offset' := by
  refine ⟨fun heq => ?_, fun heq => heq ▸ rfl⟩
  rcases Nat.lt_trichotomy offset offset' with hlt | heq | hlt
  · exact absurd heq (locate_lt h h' hlt).ne
  · exact heq
  · exact absurd heq.symm (locate_lt h' h hlt).ne

end

end Source

/-- Offsets are located by the starts of lines as by a walk over the text. A boundary is located by
what stands in front of it: one line for each line feed, and one column for each character behind
the last of them. What stands further on has a later location, and no two boundaries share one. -/
theorem LineStarts.locate_exact (source : String) :
    (∀ offset, (ofText source.toList).locate source.toList offset =
      Source.locate source.toList offset) ∧
    (∀ offset, (String.Pos.Raw.mk offset).IsValid source → ∃ front rest : String,
      front ++ rest = source ∧ front.utf8ByteSize = offset ∧
      (ofText source.toList).locate source.toList offset =
        ⟨front.toList.count '\n' + 1, (Source.lastLine front.toList).length + 1⟩) ∧
    (∀ offset offset', (String.Pos.Raw.mk offset).IsValid source →
      (String.Pos.Raw.mk offset').IsValid source → offset < offset' →
      ((ofText source.toList).locate source.toList offset).Before
        ((ofText source.toList).locate source.toList offset')) ∧
    (∀ offset offset', (String.Pos.Raw.mk offset).IsValid source →
      (String.Pos.Raw.mk offset').IsValid source →
      (ofText source.toList).locate source.toList offset =
        (ofText source.toList).locate source.toList offset' → offset = offset') := by
  refine ⟨locate_ofText _, fun offset h => ?_, fun offset offset' h h' hlt => ?_,
    fun offset offset' h h' heq => ?_⟩
  · obtain ⟨front, rest, rfl, rfl⟩ := Source.exists_front h
    refine ⟨front, rest, rfl, rfl, ?_⟩
    rw [locate_ofText, String.toList_append, ← Source.byteLength_toList, Source.locate_front]
  · rw [locate_ofText, locate_ofText]
    exact Source.locate_lt h h' hlt
  · rw [locate_ofText, locate_ofText] at heq
    exact (Source.locate_inj h h').1 heq

end HostSheet

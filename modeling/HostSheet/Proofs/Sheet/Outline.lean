import HostSheet.Proofs.Sheet.Comments
import HostSheet.Proofs.Sheet.WellFormed
import HostSheet.Proofs.Source.Indexing

/-!
# Where declarations and calls stand

The declarations and calls of a sheet can be listed as they are written, a declaration before the
calls of its value and a call before those in its arguments. Each stands where its own text starts,
and each stands further on than those before it.
-/

namespace HostSheet

open Grammar

variable {p q : Type}

-- ---------------------------------------------------------------------------
-- Outlines
-- ---------------------------------------------------------------------------

namespace Expr

mutual

def outline : Expr p → List (Node p)
  | .literal _ => []
  | .list items _ => itemsOutline items
  | .map entries => entriesOutline entries
  | .call name args place => .call name args place :: itemsOutline args

def itemsOutline : List (Expr p) → List (Node p)
  | [] => []
  | item :: items => item.outline ++ itemsOutline items

def entriesOutline : List (Expr p × Expr p) → List (Node p)
  | [] => []
  | (key, value) :: entries => key.outline ++ (value.outline ++ entriesOutline entries)

end

theorem itemsOutline_eq (items : List (Expr p)) : itemsOutline items = items.flatMap outline := by
  induction items with
  | nil => rfl
  | cons item items ih => rw [itemsOutline, ih, List.flatMap_cons]

theorem entriesOutline_eq (entries : List (Expr p × Expr p)) :
    entriesOutline entries = entries.flatMap fun entry => entry.1.outline ++ entry.2.outline := by
  induction entries with
  | nil => rfl
  | cons entry entries ih => rw [entriesOutline, ih, List.flatMap_cons, List.append_assoc]

end Expr

def Declaration.outline (d : Declaration p) : List (Node p) :=
  .declaration d :: d.value.outline

mutual

def Rule.outline : Rule p → List (Node p)
  | .mk _ items _ => Item.outline items

def Item.outline : List (Item p) → List (Node p)
  | [] => []
  | .declaration d :: items => d.outline ++ Item.outline items
  | .rule r :: items => r.outline ++ Item.outline items

end

def Sheet.outline (sheet : Sheet p) : List (Node p) :=
  sheet.flatMap Rule.outline

def Node.opening : Node p → String
  | .call name _ _ => name ++ "("
  | .declaration d => d.property

-- ---------------------------------------------------------------------------
-- The nodes of an outline
-- ---------------------------------------------------------------------------

theorem Expr.itemsOutline_perm {items : List (Expr p)}
    (ih : ∀ item ∈ items, item.outline.Perm item.nodes) :
    (itemsOutline items).Perm (itemsNodes items) := by
  rw [itemsOutline_eq, itemsNodes_eq]
  exact List.Perm.flatMap_left items ih

theorem Expr.outline_perm (e : Expr p) : e.outline.Perm e.nodes := by
  induction e using treeInduction with
  | literal value => exact .refl _
  | list items separator ih => exact itemsOutline_perm ih
  | map entries ih =>
    rw [outline, nodes, entriesOutline_eq, entriesNodes_eq]
    exact List.Perm.flatMap_left entries fun entry h => (ih entry h).1.append (ih entry h).2
  | call name args place ih =>
    exact ((itemsOutline_perm ih).cons _).trans (List.perm_append_singleton _ _).symm

theorem Declaration.outline_perm (d : Declaration p) : d.outline.Perm d.nodes :=
  (d.value.outline_perm.cons _).trans (List.perm_append_singleton _ _).symm

theorem Item.outline_perm (items : List (Item p)) :
    (Item.outline items).Perm (Item.nodes items) := by
  induction items using Item.treeInduction with
  | nil => exact .refl _
  | declaration d items ih => exact d.outline_perm.append ih
  | rule selectors inner place items hinner ih => exact hinner.append ih

theorem Rule.outline_perm (rule : Rule p) : rule.outline.Perm rule.nodes := by
  cases rule with
  | mk selectors items place => exact Item.outline_perm items

/-- The outline of a sheet is what is evaluated in it, in the order of its text. -/
theorem Sheet.outline_perm (sheet : Sheet p) : (Sheet.outline sheet).Perm (Sheet.nodes sheet) :=
  List.Perm.flatMap_left sheet fun rule _ => rule.outline_perm

-- ---------------------------------------------------------------------------
-- Places
-- ---------------------------------------------------------------------------

theorem Expr.itemsOutline_places {items : List (Expr p)}
    (ih : ∀ item ∈ items, item.outline.map Node.place = item.places) :
    (itemsOutline items).map Node.place = itemsPlaces items := by
  rw [itemsOutline_eq, itemsPlaces_eq, List.map_flatMap]
  exact List.flatMap_congr ih

theorem Expr.outline_places (e : Expr p) : e.outline.map Node.place = e.places := by
  induction e using treeInduction with
  | literal value => rfl
  | list items separator ih => exact itemsOutline_places ih
  | map entries ih =>
    rw [outline, places, entriesOutline_eq, entriesPlaces_eq, List.map_flatMap]
    refine List.flatMap_congr fun entry h => ?_
    rw [List.map_append, (ih entry h).1, (ih entry h).2]
  | call name args place ih => exact congrArg (place :: ·) (itemsOutline_places ih)

theorem Declaration.outline_places (d : Declaration p) : d.outline.map Node.place = d.places :=
  congrArg (d.place :: ·) d.value.outline_places

theorem Item.outline_places (items : List (Item p)) :
    ((Item.outline items).map Node.place).Sublist (Item.places items) := by
  induction items using Item.treeInduction with
  | nil => exact .refl _
  | declaration d items ih =>
    rw [outline, places, List.map_append, d.outline_places]
    exact ih.append_left _
  | rule selectors inner place items hinner ih =>
    rw [outline, places, List.map_append]
    exact (hinner.cons place).append ih

theorem Rule.outline_places (rule : Rule p) :
    (rule.outline.map Node.place).Sublist rule.places := by
  cases rule with
  | mk selectors items place => exact (Item.outline_places items).cons place

theorem Sheet.outline_places (sheet : Sheet p) :
    ((Sheet.outline sheet).map Node.place).Sublist (Sheet.places sheet) := by
  induction sheet with
  | nil => exact .refl _
  | cons rule rules ih =>
    rw [outline, List.flatMap_cons, List.map_append, places, List.flatMap_cons]
    exact rule.outline_places.append ih

-- ---------------------------------------------------------------------------
-- Changed places
-- ---------------------------------------------------------------------------

namespace Node

def mapPlaces (f : p → q) : Node p → Node q
  | .call name args place => .call name (Expr.mapPlacesItems f args) (f place)
  | .declaration d => .declaration (d.mapPlaces f)

@[simp] theorem place_mapPlaces (f : p → q) (node : Node p) :
    (node.mapPlaces f).place = f node.place := by
  cases node <;> rfl

@[simp] theorem opening_mapPlaces (f : p → q) (node : Node p) :
    (node.mapPlaces f).opening = node.opening := by
  cases node <;> rfl

end Node

theorem Expr.itemsOutline_mapPlaces (f : p → q) {items : List (Expr p)}
    (ih : ∀ item ∈ items, (item.mapPlaces f).outline = item.outline.map (Node.mapPlaces f)) :
    itemsOutline (mapPlacesItems f items) = (itemsOutline items).map (Node.mapPlaces f) := by
  rw [mapPlacesItems_eq, itemsOutline_eq, itemsOutline_eq, List.flatMap_map, List.map_flatMap]
  exact List.flatMap_congr ih

theorem Expr.outline_mapPlaces (f : p → q) (e : Expr p) :
    (e.mapPlaces f).outline = e.outline.map (Node.mapPlaces f) := by
  induction e using treeInduction with
  | literal value => rfl
  | list items separator ih => exact itemsOutline_mapPlaces f ih
  | map entries ih =>
    rw [mapPlaces, outline, outline, mapPlacesEntries_eq, entriesOutline_eq, entriesOutline_eq,
      List.flatMap_map, List.map_flatMap]
    refine List.flatMap_congr fun entry h => ?_
    rw [(ih entry h).1, (ih entry h).2, List.map_append]
  | call name args place ih =>
    exact congrArg (Node.call name (mapPlacesItems f args) (f place) :: ·)
      (itemsOutline_mapPlaces f ih)

theorem Declaration.outline_mapPlaces (f : p → q) (d : Declaration p) :
    (d.mapPlaces f).outline = d.outline.map (Node.mapPlaces f) :=
  congrArg (Node.declaration (d.mapPlaces f) :: ·) (d.value.outline_mapPlaces f)

theorem Item.outline_mapPlaces (f : p → q) (items : List (Item p)) :
    Item.outline (mapPlacesAll f items) = (Item.outline items).map (Node.mapPlaces f) := by
  induction items using Item.treeInduction with
  | nil => rfl
  | declaration d items ih =>
    rw [mapPlacesAll, mapPlaces, outline, outline, ih, d.outline_mapPlaces f, List.map_append]
  | rule selectors inner place items hinner ih =>
    rw [mapPlacesAll, mapPlaces, Rule.mapPlaces, outline, outline, Rule.outline, Rule.outline,
      hinner, ih, List.map_append]

theorem Rule.outline_mapPlaces (f : p → q) (rule : Rule p) :
    (rule.mapPlaces f).outline = rule.outline.map (Node.mapPlaces f) := by
  cases rule with
  | mk selectors items place => exact Item.outline_mapPlaces f items

theorem Sheet.outline_mapPlaces (f : p → q) (sheet : Sheet p) :
    Sheet.outline (sheet.map (Rule.mapPlaces f)) =
      (Sheet.outline sheet).map (Node.mapPlaces f) := by
  rw [outline, outline, List.flatMap_map, List.map_flatMap]
  exact List.flatMap_congr fun rule _ => rule.outline_mapPlaces f

-- ---------------------------------------------------------------------------
-- Openings
-- ---------------------------------------------------------------------------

def Node.Opens (node : Node (List Char)) : Prop :=
  node.opening.toList <+: node.place

theorem Grammar.hereditary_opens : Hereditary fun e => ∀ node ∈ e.nodes, node.Opens where
  literal _ := by simp [Expr.nodes]
  list _ _ h := by
    rw [Expr.nodes, Expr.itemsNodes_eq, List.forall_mem_flatMap]
    exact h
  map _ h := by
    rw [Expr.nodes, Expr.entriesNodes_eq, List.forall_mem_flatMap]
    exact fun entry he => List.forall_mem_append.2 (h entry he)
  call _ hopen h := by
    rw [Expr.nodes, Expr.itemsNodes_eq, List.forall_mem_append, List.forall_mem_flatMap,
      List.forall_mem_singleton]
    exact ⟨h, hopen⟩

/-- A comment leaves a blank, so there is no comment in or in front of a word at the start. -/
theorem prefix_of_withoutComments {ps : List Piece} {word : List Char}
    (hword : ∀ c ∈ word, Text.isBlank c = false) (h : word <+: withoutComments ps) :
    word <+: ps.flatMap Piece.text := by
  induction ps generalizing word with
  | nil => exact h
  | cons piece ps ih =>
    have hkept : word <+: piece.text ++ withoutComments ps →
        word <+: piece.text ++ ps.flatMap Piece.text := by
      intro h
      obtain hshort | ⟨more, rfl⟩ :=
        List.prefix_or_prefix_of_prefix h (List.prefix_append piece.text _)
      · exact hshort.trans (List.prefix_append _ _)
      · rw [List.prefix_append_right_inj] at h ⊢
        exact ih (fun c hc => hword c (List.mem_append_right _ hc)) h
    cases piece with
    | code c => exact hkept h
    | quoted text => exact hkept h
    | comment text =>
      cases word with
      | nil => exact List.nil_prefix
      | cons c word =>
        obtain ⟨rfl, -⟩ := List.cons_prefix_cons.1 h
        exact absurd (hword ' ' List.mem_cons_self) (by decide)

theorem Text.trim_prefix {s : List Char} (h : ∀ c, s.head? = some c → isBlank c = false) :
    trim s <+: s := by
  have hstart : trimStart s = s := by
    cases s with
    | nil => rfl
    | cons c s => exact List.dropWhile_cons_of_neg (by simp [h c rfl])
  rw [trim_eq_rdropWhile, hstart]
  exact List.rdropWhile_prefix _ s

theorem Grammar.Heading.trim_prefix {isMark : Char → Bool} {mark : Char} {s text rest : List Char}
    {us : List Token} (h : Heading isMark mark s text us rest) (hs : startsToken s)
    (hbare : ∀ c ∈ Text.trim text, Text.isBlank c = false) : Text.trim text <+: s := by
  obtain @⟨_, before, _, hfound⟩ := h
  have hhead : ∀ c, (withoutComments before).head? = some c → Text.isBlank c = false := by
    intro c hc
    obtain ⟨t, ht⟩ := List.head?_eq_some_iff.1 hc
    have huncommented : uncommented s = withoutComments before ++ uncommented (mark :: rest) := by
      rw [uncommented, uncommentedIn, (findMark_iff.1 hfound).pieces_eq, withoutComments_append]
      rfl
    have hstarts := hs.uncommented
    rw [huncommented, ht] at hstarts
    exact (startsToken_cons.1 hstarts).1
  have hprefix := prefix_of_withoutComments hbare (Text.trim_prefix hhead)
  rw [← text_findMark hfound]
  exact hprefix.trans (List.prefix_append _ _)

theorem Rule.Written.opens {r : RawRule} (h : r.Written) :
    ∀ d, Item.declaration d ∈ r.items → ∀ node ∈ d.nodes, node.Opens := by
  intro d hd
  obtain ⟨levels, s, ts, rest, hstarts, ⟨hheading, hproperty, -, hvalue, -⟩⟩ := h.declared d hd
  rw [Declaration.nodes, List.forall_mem_append, List.forall_mem_singleton]
  refine ⟨hereditary_opens.of_value hvalue, ?_⟩
  rw [Node.Opens, Node.opening, String.toList_ofList]
  exact hheading.trim_prefix hstarts hproperty.2

theorem Grammar.Rules.opens {s : List Char} {rules : List RawRule} {ts : List Token}
    (h : Rules s rules ts) : ∀ node ∈ Sheet.outline rules, node.Opens := by
  intro node hnode
  obtain ⟨rule, hrule, hnode⟩ := List.mem_flatMap.1 ((Sheet.outline_perm rules).mem_iff.1 hnode)
  exact ((h.each rule hrule).imp fun _ => Rule.Written.opens).forall_nodes node hnode

-- ---------------------------------------------------------------------------
-- Order
-- ---------------------------------------------------------------------------

section
variable {source s rest place : List Char} {places : List (List Char)}

theorem placeIn_before {c : Char} (hs : c :: s <:+ source) (hplace : place <:+ s) :
    (placeIn source (c :: s)).Before (placeIn source place) := by
  obtain ⟨front, rfl⟩ := hs
  obtain ⟨mid, rfl⟩ := hplace
  have hbefore := Source.locate_before front (c :: mid) place (List.cons_ne_nil c mid)
  have hbehind := Source.offsetOf_append (front ++ (c :: mid)) place
  rw [List.append_assoc] at hbehind
  rw [placeIn, placeIn, Source.offsetOf_append]
  rw [← hbehind] at hbefore
  exact hbefore

/-- What one comes past later has a later location. -/
theorem Passes.pairwise (h : Passes s places rest) (hs : s <:+ source) :
    (places.map (placeIn source)).Pairwise Location.Before := by
  induction h with
  | done => exact .nil
  | @place s c t places rest hplace hmore ih =>
    have hplace := hplace.trans hs
    refine List.pairwise_cons.2 ⟨List.forall_mem_map.2 fun place hmem => ?_, ih ?_⟩
    · exact placeIn_before hplace (hmore.mem place hmem).1
    · exact (List.suffix_cons c t).trans hplace

end

-- ---------------------------------------------------------------------------
-- Where nodes stand
-- ---------------------------------------------------------------------------

/-- One boundary of the source has the location of the node, and there the text of the node
starts. -/
def Node.StandsIn (source : String) (node : Node Location) : Prop :=
  (∃! offset, (String.Pos.Raw.mk offset).IsValid source ∧
    (LineStarts.ofText source.toList).locate source.toList offset = node.place) ∧
  ∃ front behind : String, front ++ (node.opening ++ behind) = source ∧
    (LineStarts.ofText source.toList).locate source.toList front.utf8ByteSize = node.place

section
variable {source : String} {sheet : Sheet Location}

theorem Sheet.outline_pairwise (h : Sheet.parse source = .ok sheet) :
    ((Sheet.outline sheet).map Node.place).Pairwise Location.Before := by
  obtain ⟨rules, hrules, rfl⟩ := Sheet.parse_ok.1 h
  have hpasses := readRules_passes source.toList
  rw [hrules] at hpasses
  have horder := hpasses.pairwise (List.suffix_refl _)
  rw [← Sheet.places_mapPlaces] at horder
  exact horder.sublist (Sheet.outline_places _)

theorem Sheet.outline_opens (h : Sheet.parse source = .ok sheet) :
    ∀ node ∈ Sheet.outline sheet, ∃ front behind : String,
      front ++ (node.opening ++ behind) = source ∧
      node.place = Source.locate source.toList front.utf8ByteSize := by
  obtain ⟨rules, hrules, rfl⟩ := Sheet.parse_ok.1 h
  obtain ⟨ts, hts⟩ := readRules_ok.1 hrules
  have hpasses := readRules_passes source.toList
  rw [hrules] at hpasses
  rw [Sheet.outline_mapPlaces, List.forall_mem_map]
  intro node hnode
  have hplace := (Sheet.outline_places rules).subset (List.mem_map_of_mem hnode)
  obtain ⟨front, hfront⟩ := (hpasses.mem node.place hplace).1
  obtain ⟨behind, hbehind⟩ := hts.opens node hnode
  refine ⟨String.ofList front, String.ofList behind, ?_, ?_⟩
  · rw [Node.opening_mapPlaces, ← String.toList_inj]
    simp [hbehind, hfront]
  · rw [Node.place_mapPlaces, placeIn, ← hfront, Source.offsetOf_append,
      ← Source.byteLength_toList, String.toList_ofList]

/-- Each declaration and call of a sheet stands where its own text starts, and further on than those
written before it. -/
theorem Sheet.outline_of_parse (h : Sheet.parse source = .ok sheet) :
    (∀ node ∈ Sheet.outline sheet, node.StandsIn source) ∧
    ((Sheet.outline sheet).map Node.place).Pairwise Location.Before ∧
    ((Sheet.outline sheet).map Node.place).Nodup := by
  have horder := Sheet.outline_pairwise h
  refine ⟨fun node hnode => ?_, horder, horder.imp Location.Before.ne⟩
  obtain ⟨front, behind, hsource, hplace⟩ := Sheet.outline_opens h node hnode
  have hvalid : (String.Pos.Raw.mk front.utf8ByteSize).IsValid source :=
    String.Pos.Raw.isValid_iff_exists_append.2 ⟨front, _, hsource.symm, rfl⟩
  simp only [Node.StandsIn, LineStarts.locate_ofText, hplace]
  refine ⟨⟨_, ⟨hvalid, rfl⟩, fun offset hoffset => ?_⟩, front, behind, hsource, rfl⟩
  exact (Source.locate_inj hoffset.1 hvalid).1 hoffset.2

/-- A call in a call and a nested rule, with comments and letters of more than one byte. -/
theorem Sheet.outline_of_parse_nested :
    ∃ sheet, Sheet.parse "é\x7b/**/a/**/:f( /**/g(x), 1);\nb\x7bü:h()\x7d\x7d" = .ok sheet ∧
      (Sheet.outline sheet).map (fun node => (node.opening, node.place)) =
        [("a", ⟨1, 7⟩), ("f(", ⟨1, 13⟩), ("g(", ⟨1, 20⟩), ("ü", ⟨2, 3⟩), ("h(", ⟨2, 5⟩)] ∧
      (∀ node ∈ Sheet.outline sheet,
        node.StandsIn "é\x7b/**/a/**/:f( /**/g(x), 1);\nb\x7bü:h()\x7d\x7d") ∧
      ((Sheet.outline sheet).map Node.place).Pairwise Location.Before ∧
      ((Sheet.outline sheet).map Node.place).Nodup := by
  have houtline : ((Sheet.parse "é\x7b/**/a/**/:f( /**/g(x), 1);\nb\x7bü:h()\x7d\x7d").map
      fun sheet => (Sheet.outline sheet).map fun node => (node.opening, node.place)).toOption =
        some [("a", ⟨1, 7⟩), ("f(", ⟨1, 13⟩), ("g(", ⟨1, 20⟩), ("ü", ⟨2, 3⟩), ("h(", ⟨2, 5⟩)] := by
    decide +kernel
  cases h : Sheet.parse "é\x7b/**/a/**/:f( /**/g(x), 1);\nb\x7bü:h()\x7d\x7d" with
  | error e =>
    rw [h] at houtline
    cases houtline
  | ok sheet =>
    rw [h] at houtline
    exact ⟨sheet, rfl, Option.some.inj houtline, Sheet.outline_of_parse h⟩

end

end HostSheet

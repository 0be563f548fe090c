import HostSheet.Proofs.Sheet.Rules

/-!
# Places

The places in a sheet can be listed as they are written: that of a rule, a declaration or a call
before those of what is in it. What is evaluated in a sheet stands at one of its places.
-/

namespace HostSheet

variable {p q : Type}

-- ---------------------------------------------------------------------------
-- Expressions
-- ---------------------------------------------------------------------------

namespace Expr

mutual

def places : Expr p → List p
  | .literal _ => []
  | .list items _ => itemsPlaces items
  | .map entries => entriesPlaces entries
  | .call _ args place => place :: itemsPlaces args

def itemsPlaces : List (Expr p) → List p
  | [] => []
  | item :: items => item.places ++ itemsPlaces items

def entriesPlaces : List (Expr p × Expr p) → List p
  | [] => []
  | (key, value) :: entries => key.places ++ (value.places ++ entriesPlaces entries)

end

theorem itemsPlaces_eq (items : List (Expr p)) : itemsPlaces items = items.flatMap places := by
  induction items with
  | nil => rfl
  | cons item items ih => rw [itemsPlaces, ih, List.flatMap_cons]

theorem entriesPlaces_eq (entries : List (Expr p × Expr p)) :
    entriesPlaces entries = entries.flatMap fun entry => entry.1.places ++ entry.2.places := by
  induction entries with
  | nil => rfl
  | cons entry entries ih => rw [entriesPlaces, ih, List.flatMap_cons, List.append_assoc]

@[simp] theorem places_collapse (items : List (Expr p)) (separator : Separator) :
    (collapse items separator).places = itemsPlaces items := by
  unfold collapse
  split
  · rw [itemsPlaces, itemsPlaces, List.append_nil]
  · rfl

theorem itemsPlaces_mapPlaces (f : p → q) {items : List (Expr p)}
    (h : ∀ item ∈ items, (item.mapPlaces f).places = item.places.map f) :
    itemsPlaces (mapPlacesItems f items) = (itemsPlaces items).map f := by
  rw [mapPlacesItems_eq, itemsPlaces_eq, itemsPlaces_eq, List.flatMap_map, List.map_flatMap]
  exact List.flatMap_congr h

theorem places_mapPlaces (f : p → q) (e : Expr p) : (e.mapPlaces f).places = e.places.map f := by
  induction e using treeInduction with
  | literal value => rfl
  | list items separator ih => exact itemsPlaces_mapPlaces f ih
  | map entries ih =>
    rw [mapPlaces, places, places, mapPlacesEntries_eq, entriesPlaces_eq, entriesPlaces_eq,
      List.flatMap_map, List.map_flatMap]
    refine List.flatMap_congr fun entry h => ?_
    rw [(ih entry h).1, (ih entry h).2, List.map_append]
  | call name args place ih => exact congrArg (f place :: ·) (itemsPlaces_mapPlaces f ih)

section
variable {f g : p → q}

theorem mapPlacesItems_congr {items : List (Expr p)}
    (ih : ∀ item ∈ items, (∀ place ∈ item.places, f place = g place) →
      item.mapPlaces f = item.mapPlaces g)
    (h : ∀ place ∈ itemsPlaces items, f place = g place) :
    mapPlacesItems f items = mapPlacesItems g items := by
  rw [mapPlacesItems_eq, mapPlacesItems_eq]
  rw [itemsPlaces_eq] at h
  refine List.map_congr_left fun item hitem => ih item hitem fun place hplace => ?_
  exact h place (List.mem_flatMap.2 ⟨item, hitem, hplace⟩)

theorem mapPlaces_congr {e : Expr p} (h : ∀ place ∈ e.places, f place = g place) :
    e.mapPlaces f = e.mapPlaces g := by
  induction e using treeInduction with
  | literal value => rfl
  | list items separator ih => exact congrArg (list · separator) (mapPlacesItems_congr ih h)
  | map entries ih =>
    rw [places, entriesPlaces_eq] at h
    rw [mapPlaces, mapPlaces, mapPlacesEntries_eq, mapPlacesEntries_eq]
    refine congrArg map (List.map_congr_left fun entry hentry => ?_)
    have hplaces : ∀ place ∈ entry.1.places ++ entry.2.places, f place = g place :=
      fun place hplace => h place (List.mem_flatMap.2 ⟨entry, hentry, hplace⟩)
    rw [List.forall_mem_append] at hplaces
    rw [(ih entry hentry).1 hplaces.1, (ih entry hentry).2 hplaces.2]
  | call name args place ih =>
    rw [places, List.forall_mem_cons] at h
    rw [mapPlaces, mapPlaces, h.1, mapPlacesItems_congr ih h.2]

end

end Expr

-- ---------------------------------------------------------------------------
-- Rules
-- ---------------------------------------------------------------------------

def Declaration.places (d : Declaration p) : List p :=
  d.place :: d.value.places

mutual

def Rule.places : Rule p → List p
  | .mk _ items place => place :: Item.places items

def Item.places : List (Item p) → List p
  | [] => []
  | .declaration d :: items => d.places ++ Item.places items
  | .rule r :: items => r.places ++ Item.places items

end

def Sheet.places (sheet : Sheet p) : List p :=
  sheet.flatMap Rule.places

theorem Declaration.places_mapPlaces (f : p → q) (d : Declaration p) :
    (d.mapPlaces f).places = d.places.map f :=
  congrArg (f d.place :: ·) (d.value.places_mapPlaces f)

theorem Item.places_mapPlaces (f : p → q) (items : List (Item p)) :
    Item.places (Item.mapPlacesAll f items) = (Item.places items).map f := by
  induction items using Item.treeInduction with
  | nil => rfl
  | declaration d items ih =>
    rw [mapPlacesAll, mapPlaces, places, places, ih, d.places_mapPlaces f, List.map_append]
  | rule selectors inner place items hinner ih =>
    rw [mapPlacesAll, mapPlaces, Rule.mapPlaces, places, places, Rule.places, Rule.places, hinner,
      ih, List.map_append, List.map_cons]

theorem Rule.places_mapPlaces (f : p → q) (rule : Rule p) :
    (rule.mapPlaces f).places = rule.places.map f := by
  cases rule with
  | mk selectors items place => exact congrArg (f place :: ·) (Item.places_mapPlaces f items)

theorem Sheet.places_mapPlaces (f : p → q) (sheet : Sheet p) :
    Sheet.places (sheet.map (Rule.mapPlaces f)) = (Sheet.places sheet).map f := by
  rw [places, places, List.flatMap_map, List.map_flatMap]
  exact List.flatMap_congr fun rule _ => rule.places_mapPlaces f

section
variable {f g : p → q}

theorem Declaration.mapPlaces_congr {d : Declaration p}
    (h : ∀ place ∈ d.places, f place = g place) : d.mapPlaces f = d.mapPlaces g := by
  rw [places, List.forall_mem_cons] at h
  rw [mapPlaces, mapPlaces, h.1, Expr.mapPlaces_congr h.2]

theorem Item.mapPlaces_congr {items : List (Item p)}
    (h : ∀ place ∈ Item.places items, f place = g place) :
    mapPlacesAll f items = mapPlacesAll g items := by
  induction items using Item.treeInduction with
  | nil => rfl
  | declaration d items ih =>
    rw [places, List.forall_mem_append] at h
    rw [mapPlacesAll, mapPlacesAll, mapPlaces, mapPlaces, Declaration.mapPlaces_congr h.1, ih h.2]
  | rule selectors inner place items hinner ih =>
    rw [places, Rule.places, List.forall_mem_append, List.forall_mem_cons] at h
    obtain ⟨⟨hplace, hplaces⟩, hitems⟩ := h
    rw [mapPlacesAll, mapPlacesAll, mapPlaces, mapPlaces, Rule.mapPlaces, Rule.mapPlaces, hplace,
      hinner hplaces, ih hitems]

theorem Rule.mapPlaces_congr {rule : Rule p} (h : ∀ place ∈ rule.places, f place = g place) :
    rule.mapPlaces f = rule.mapPlaces g := by
  cases rule with
  | mk selectors items place =>
    rw [places, List.forall_mem_cons] at h
    rw [mapPlaces, mapPlaces, h.1, Item.mapPlaces_congr h.2]

end

-- ---------------------------------------------------------------------------
-- Nodes
-- ---------------------------------------------------------------------------

def Node.place : Node p → p
  | .call _ _ place => place
  | .declaration d => d.place

theorem Expr.place_mem_itemsPlaces {items : List (Expr p)}
    (ih : ∀ item ∈ items, ∀ node ∈ item.nodes, node.place ∈ item.places) :
    ∀ node ∈ itemsNodes items, node.place ∈ itemsPlaces items := by
  induction items with
  | nil => simp [itemsNodes]
  | cons item items rest =>
    rw [List.forall_mem_cons] at ih
    rw [itemsNodes, itemsPlaces, List.forall_mem_append]
    exact ⟨fun node h => List.mem_append_left _ (ih.1 node h),
      fun node h => List.mem_append_right _ (rest ih.2 node h)⟩

theorem Expr.place_mem_places (e : Expr p) : ∀ node ∈ e.nodes, node.place ∈ e.places := by
  induction e using treeInduction with
  | literal value => simp [nodes]
  | list items separator ih => exact place_mem_itemsPlaces ih
  | map entries ih =>
    rw [nodes, places]
    induction entries with
    | nil => simp [entriesNodes]
    | cons entry entries rest =>
      rw [List.forall_mem_cons] at ih
      rw [entriesNodes, entriesPlaces, List.forall_mem_append, List.forall_mem_append]
      refine ⟨fun node h => ?_, fun node h => ?_, fun node h => ?_⟩
      · exact List.mem_append_left _ (ih.1.1 node h)
      · exact List.mem_append_right _ (List.mem_append_left _ (ih.1.2 node h))
      · exact List.mem_append_right _ (List.mem_append_right _ (rest ih.2 node h))
  | call name args place ih =>
    rw [nodes, List.forall_mem_append, List.forall_mem_singleton]
    exact ⟨fun node h => List.mem_cons_of_mem _ (place_mem_itemsPlaces ih node h),
      List.mem_cons_self⟩

theorem Declaration.place_mem_places (d : Declaration p) :
    ∀ node ∈ d.nodes, node.place ∈ d.places := by
  rw [nodes, List.forall_mem_append, List.forall_mem_singleton]
  exact ⟨fun node h => List.mem_cons_of_mem _ (d.value.place_mem_places node h),
    List.mem_cons_self⟩

theorem Item.place_mem_places (items : List (Item p)) :
    ∀ node ∈ Item.nodes items, node.place ∈ Item.places items := by
  induction items using Item.treeInduction with
  | nil => simp [nodes]
  | declaration d items ih =>
    rw [nodes, places, List.forall_mem_append]
    exact ⟨fun node h => List.mem_append_left _ (d.place_mem_places node h),
      fun node h => List.mem_append_right _ (ih node h)⟩
  | rule selectors inner place items hinner ih =>
    rw [nodes, Rule.nodes, places, Rule.places, List.forall_mem_append]
    exact ⟨fun node h => List.mem_append_left _ (List.mem_cons_of_mem _ (hinner node h)),
      fun node h => List.mem_append_right _ (ih node h)⟩

theorem Rule.place_mem_places (rule : Rule p) :
    ∀ node ∈ rule.nodes, node.place ∈ rule.places := by
  cases rule with
  | mk selectors items place =>
    exact fun node h => List.mem_cons_of_mem _ (Item.place_mem_places items node h)

/-- Whatever is evaluated in a sheet stands at one of its places. -/
theorem Sheet.place_mem_places {sheet : Sheet p} {node : Node p} (h : node ∈ Sheet.nodes sheet) :
    node.place ∈ Sheet.places sheet := by
  obtain ⟨rule, hrule, hnode⟩ := List.mem_flatMap.1 h
  exact List.mem_flatMap.2 ⟨rule, hrule, rule.place_mem_places node hnode⟩

end HostSheet

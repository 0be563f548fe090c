import HostSheet.Proofs.Session.Calls
import HostSheet.Proofs.Session.Evaluating
import HostSheet.Proofs.Sheet.Rules

/-!
# Printed sheets

A printed sheet is the sheet that was evaluated, with what the events tell about its declarations in
their places. Nothing else is changed, and no declaration has the text of another one.
-/

namespace HostSheet

variable {p : Type}

-- ---------------------------------------------------------------------------
-- Declarations among nodes and events
-- ---------------------------------------------------------------------------

def Node.declared? : Node p → Option p
  | .declaration d => some d.place
  | .call .. => none

def Event.declared? : Event → Option Printed
  | .declare property value place text => some (Event.declare property value place text).printed?
  | _ => none

/-- The events of declarations are where the nodes are declarations. -/
def Event.TellOf (nodes : List (Node p)) (events : List Event) : Prop :=
  events.map (·.declared?.isSome) = nodes.map (·.declared?.isSome)

section
variable {nodes others : List (Node p)} {events : List Event}

theorem Event.TellOf.append (h : Event.TellOf (nodes ++ others) events) :
    Event.TellOf nodes (events.take nodes.length) ∧
      Event.TellOf others (events.drop nodes.length) := by
  rw [TellOf, List.map_append] at h
  constructor
  · rw [TellOf, List.map_take, h, List.take_left' (List.length_map _)]
  · rw [TellOf, List.map_drop, h, List.drop_left' (List.length_map _)]

theorem Event.TellOf.filterMap_eq_nil (h : Event.TellOf nodes events)
    (hcalls : ∀ node ∈ nodes, node.declared? = none) : events.filterMap Event.declared? = [] := by
  rw [List.filterMap_eq_nil_iff]
  intro event hevent
  have hmem := List.mem_map_of_mem (f := fun event : Event => event.declared?.isSome) hevent
  rw [h, List.mem_map] at hmem
  obtain ⟨node, hnode, hsame⟩ := hmem
  rw [hcalls node hnode] at hsame
  simpa using hsame.symm

end

theorem declared?_itemsNodes {items : List (Expr p)}
    (h : ∀ item ∈ items, ∀ node ∈ item.nodes, node.declared? = none) :
    ∀ node ∈ Expr.itemsNodes items, node.declared? = none := by
  induction items with
  | nil => simp [Expr.itemsNodes]
  | cons item items ih =>
    rw [List.forall_mem_cons] at h
    rw [Expr.itemsNodes, List.forall_mem_append]
    exact ⟨h.1, ih h.2⟩

theorem declared?_nodes (e : Expr p) : ∀ node ∈ e.nodes, node.declared? = none := by
  induction e using Expr.treeInduction with
  | literal value => simp [Expr.nodes]
  | list items separator ih => exact declared?_itemsNodes ih
  | map entries ih =>
    rw [Expr.nodes]
    induction entries with
    | nil => simp [Expr.entriesNodes]
    | cons entry entries ihs =>
      rw [List.forall_mem_cons] at ih
      rw [Expr.entriesNodes, List.forall_mem_append, List.forall_mem_append]
      exact ⟨ih.1.1, ih.1.2, ihs ih.2⟩
  | call name args place ih =>
    rw [Expr.nodes, List.forall_mem_append, List.forall_mem_singleton]
    exact ⟨declared?_itemsNodes ih, rfl⟩

theorem Event.TellOf.declaration {d : Declaration p} {events : List Event}
    (h : Event.TellOf d.nodes events) :
    events.filterMap Event.declared? = [events.getLast?.bind Event.printed?] := by
  rcases List.eq_nil_or_concat events with rfl | ⟨calls, last, rfl⟩
  · simp [TellOf, Declaration.nodes] at h
  · rw [List.concat_eq_append, TellOf, Declaration.nodes, List.map_append, List.map_append] at h
    obtain ⟨hcalls, hlast⟩ := List.append_inj' h rfl
    have hnone := filterMap_eq_nil hcalls (declared?_nodes d.value)
    rw [List.concat_eq_append, List.filterMap_append, hnone, List.getLast?_append]
    cases last with
    | declare property value place text => rfl
    | _ => simp [Event.declared?, Node.declared?] at hlast

-- ---------------------------------------------------------------------------
-- Printed declarations
-- ---------------------------------------------------------------------------

theorem declared?_itemsPrinted {items : List (Item p)} {events : List Event}
    (h : Event.TellOf (Item.nodes items) events) :
    (Item.nodes (Item.printed items events)).filterMap Node.declared? =
      events.filterMap Event.declared? := by
  induction items using Item.treeInduction generalizing events with
  | nil => rw [h.filterMap_eq_nil (by simp [Item.nodes])]; rfl
  | declaration d items ih =>
    obtain ⟨hfirst, hmore⟩ := h.append
    have hvalue := List.filterMap_eq_nil_iff.2
      (declared?_nodes (d.value.mapPlaces fun _ => (none : Printed)))
    rw [Item.printed, Item.nodes, List.filterMap_append, ih hmore, Declaration.nodes,
      List.filterMap_append, hvalue]
    conv_rhs => rw [← List.take_append_drop d.nodes.length events, List.filterMap_append,
      hfirst.declaration]
    rfl
  | rule selectors inner place items hinner ih =>
    obtain ⟨hfirst, hmore⟩ := h.append
    rw [Item.printed, Item.nodes, List.filterMap_append, ih hmore, Rule.printed, Rule.nodes,
      hinner hfirst, ← List.filterMap_append, List.take_append_drop]

theorem declared?_rulePrinted (rule : Rule p) {events : List Event}
    (h : Event.TellOf rule.nodes events) :
    (rule.printed events).nodes.filterMap Node.declared? = events.filterMap Event.declared? := by
  cases rule with
  | mk selectors items place => exact declared?_itemsPrinted h

theorem declared?_sheetPrinted (sheet : Sheet p) {events : List Event}
    (h : Event.TellOf (Sheet.nodes sheet) events) :
    (Sheet.nodes (Sheet.printed sheet events)).filterMap Node.declared? =
      events.filterMap Event.declared? := by
  induction sheet generalizing events with
  | nil => rw [h.filterMap_eq_nil (by simp [Sheet.nodes])]; rfl
  | cons rule rules ih =>
    rw [Sheet.nodes, List.flatMap_cons] at h
    obtain ⟨hfirst, hmore⟩ := h.append
    rw [Sheet.printed, Sheet.nodes, List.flatMap_cons, List.filterMap_append,
      declared?_rulePrinted rule hfirst]
    have hrules := ih hmore
    rw [Sheet.nodes] at hrules
    rw [hrules, ← List.filterMap_append, List.take_append_drop]

/-- The events of a course tell of declarations where the nodes are declarations. -/
theorem Setting.course_tellOf {σ : Type} {setting : Setting} {r : Registry σ}
    {past : List Event} {nodes : List (Node Location)}
    (h : firstFailure (setting.course r past nodes).1 = none) :
    Event.TellOf nodes (setting.course r past nodes).1 := by
  have htold : Event.TellOf (nodes.take (setting.course r past nodes).1.length)
      (setting.course r past nodes).1 := by
    refine course_elim (motive := fun _ _ nodes events _ =>
      Event.TellOf (nodes.take events.length) events) (fun _ _ _ => rfl) ?_
    intro r past node nodes events r' ih
    have hnode : (setting.meet r past node).1.declared?.isSome = node.declared?.isSome := by
      cases node with
      | declaration d => rfl
      | call name args place => cases h : r.contains name <;> simp [meet, h] <;> rfl
    rw [Event.TellOf] at ih
    rw [Event.TellOf, List.length_cons, List.take_succ_cons, List.map_cons, List.map_cons, ih,
      hnode]
  rwa [length_course h, List.take_length] at htold

-- ---------------------------------------------------------------------------
-- The rest of a printed sheet
-- ---------------------------------------------------------------------------

theorem Item.mapPlaces_printed (items : List (Item p)) (events : List Event) :
    Item.mapPlacesAll (fun _ => ()) (Item.printed items events) =
      Item.mapPlacesAll (fun _ => ()) items := by
  induction items using Item.treeInduction generalizing events with
  | nil => rfl
  | declaration d items ih =>
    simp only [Item.printed, mapPlacesAll, ih, mapPlaces, Declaration.mapPlaces,
      Expr.mapPlaces_mapPlaces, Function.comp_def]
  | rule selectors inner place items hinner ih =>
    simp only [Item.printed, Rule.printed, mapPlacesAll, mapPlaces, Rule.mapPlaces, hinner, ih]

theorem Rule.mapPlaces_printed (rule : Rule p) (events : List Event) :
    (rule.printed events).mapPlaces (fun _ => ()) = rule.mapPlaces fun _ => () := by
  cases rule with
  | mk selectors items place =>
    rw [Rule.printed, Rule.mapPlaces, Rule.mapPlaces, Item.mapPlaces_printed]

theorem Sheet.mapPlaces_printed (sheet : Sheet p) (events : List Event) :
    (Sheet.printed sheet events).map (Rule.mapPlaces fun _ => ()) =
      sheet.map (Rule.mapPlaces fun _ => ()) := by
  induction sheet generalizing events with
  | nil => rfl
  | cons rule rules ih =>
    rw [Sheet.printed, List.map_cons, List.map_cons, ih, rule.mapPlaces_printed]

end HostSheet

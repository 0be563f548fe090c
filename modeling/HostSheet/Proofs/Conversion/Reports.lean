import HostSheet.Proofs.Conversion.Failing

/-!
# Errors and warnings do not decode

A function is never given an error or a warning, whatever it asks for. Only where the shape takes
such a value as it is does the failure say so; elsewhere it is a value of the wrong kind.
-/

namespace HostSheet

/-- The shapes under which a value that is no list is taken as it is, as the only item of lists and
of rows of one. -/
inductive Shape.Wraps : Shape → Prop
  | any : Wraps .any
  | list {element} : Wraps element → Wraps (.list element)
  | row {shape} : Wraps shape → Wraps (.sequence [shape])

theorem Shape.wraps_list {element : Shape} : (Shape.list element).Wraps ↔ element.Wraps :=
  ⟨fun | .list h => h, .list⟩

theorem Shape.wraps_row {shape : Shape} : (Shape.sequence [shape]).Wraps ↔ shape.Wraps :=
  ⟨fun | .row h => h, .row⟩

section
variable {value : Value}

theorem isReport_iff :
    value.isReport = true ↔ ∃ message, value = .error message ∨ value = .warning message := by
  cases value <;> simp [Value.isReport]

theorem listItems_of_report (h : value.isReport = true) : listItems value = [value] := by
  obtain ⟨message, rfl | rfl⟩ := isReport_iff.1 h <;> rfl

theorem kind_of_report (h : value.isReport = true) :
    value.kind ≠ .list ∧ value.kind ≠ .map ∧ ∀ kind : ScalarKind, kind.name ≠ value.kind.name := by
  obtain ⟨message, rfl | rfl⟩ := isReport_iff.1 h
  all_goals
    refine ⟨by simp [Value.kind], by simp [Value.kind], fun kind => ?_⟩
    cases kind <;> simp [ScalarKind.name, Value.kind, Kind.name]

theorem leadsTo_list_of_report {element : Shape} (h : value.isReport = true)
    (hfails : Fails (decode element value)) : LeadsTo (.list element) value [0] element value := by
  refine .item ?_ .here
  rw [listItems_of_report h]
  exact firstAt_singleton hfails

theorem leadsTo_row_of_report {shape : Shape} (h : value.isReport = true)
    (hfails : Fails (decode shape value)) : LeadsTo (.sequence [shape]) value [0] shape value := by
  refine .component ?_ ?_ .here
  · rw [listItems_of_report h, List.length_singleton, List.length_singleton]
  · rw [listItems_of_report h]
    exact firstAt_singleton hfails

/-- An error or a warning is refused under every shape: as what cannot be passed on where it is
taken as it is, and as a value of the wrong kind everywhere else. -/
theorem exists_decode_of_report (h : value.isReport = true) (shape : Shape) :
    ∃ e, decode shape value = .error e ∧
      (e.category = .unsupportedShape ∧ shape.Wraps ∨
        e.category = .typeMismatch ∧ ¬ shape.Wraps) := by
  obtain ⟨hlist, hmap, hscalar⟩ := kind_of_report h
  induction shape using Shape.treeInduction with
  | any =>
    obtain ⟨message, rfl | rfl⟩ := isReport_iff.1 h
    all_goals exact ⟨_, rfl, .inl ⟨rfl, .any⟩⟩
  | scalar kind => exact ⟨_, decode_of_raises (.scalar (hscalar kind)), .inr ⟨rfl, nofun⟩⟩
  | sequence shapes ih =>
    rcases shapes with _ | ⟨shape, _ | ⟨second, shapes⟩⟩
    · exact ⟨_, decode_of_raises (.notAList hlist (by simp)), .inr ⟨rfl, nofun⟩⟩
    · obtain ⟨cause, hcause, hsort⟩ := ih shape List.mem_cons_self
      refine ⟨_, decode_of_leadsTo (leadsTo_row_of_report h ⟨cause, hcause⟩) hcause, ?_⟩
      rwa [DecodeError.category_within, Shape.wraps_row]
    · exact ⟨_, decode_of_raises (.notAList hlist (by simp)), .inr ⟨rfl, nofun⟩⟩
  | list element ih =>
    obtain ⟨cause, hcause, hsort⟩ := ih
    refine ⟨_, decode_of_leadsTo (leadsTo_list_of_report h ⟨cause, hcause⟩) hcause, ?_⟩
    rwa [DecodeError.category_within, Shape.wraps_list]
  | map key val => exact ⟨_, decode_of_raises (.notAMap hlist hmap), .inr ⟨rfl, nofun⟩⟩

end

/-- Errors and warnings never decode. The failure says that they cannot be passed on exactly where
the shape takes them as they are; every other shape takes them for values of the wrong kind. -/
theorem reports_refused (shape : Shape) (message : String) :
    (∃ e, decode shape (.error message) = .error e ∧
      (e.category = .unsupportedShape ↔ shape.Wraps) ∧
      (e.category = .typeMismatch ↔ ¬ shape.Wraps)) ∧
    ∃ e, decode shape (.warning message) = .error e ∧
      (e.category = .unsupportedShape ↔ shape.Wraps) ∧
      (e.category = .typeMismatch ↔ ¬ shape.Wraps) := by
  have refused : ∀ value : Value, value.isReport = true → ∃ e, decode shape value = .error e ∧
      (e.category = .unsupportedShape ↔ shape.Wraps) ∧
      (e.category = .typeMismatch ↔ ¬ shape.Wraps) := by
    intro value h
    obtain ⟨e, he, ⟨hsort, hwraps⟩ | ⟨hsort, hwraps⟩⟩ := exists_decode_of_report h shape
    · exact ⟨e, he, by simp [hsort, hwraps], by simp [hsort, hwraps]⟩
    · exact ⟨e, he, by simp [hsort, hwraps], by simp [hsort, hwraps]⟩
  exact ⟨refused _ rfl, refused _ rfl⟩

/-- Under a scalar shape an error is taken for a value of the wrong kind. -/
theorem report_mismatched :
    decode (.scalar .bool) (.error "m") = .error (.mismatch "bool" "error") ∧
      ¬ ∃ e, decode (.scalar .bool) (.error "m") = .error e ∧ e.category = .unsupportedShape := by
  refine ⟨rfl, ?_⟩
  rintro ⟨e, he, hsort⟩
  cases he
  cases hsort

end HostSheet

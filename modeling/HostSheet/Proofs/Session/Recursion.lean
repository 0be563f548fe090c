import HostSheet.Proofs.Css.Parentheses
import HostSheet.Proofs.Session.Calls
import HostSheet.Proofs.Session.Evaluating
import HostSheet.Proofs.Session.Unrolling
import HostSheet.Proofs.Sheet.WellFormed

/-!
# How deep a compilation goes

The limit on nesting bounds the expressions of a sheet, and these bound how far the evaluator goes
down. What is printed has the levels of its expression, and below them those of the values that
functions answered with.
-/

namespace HostSheet

-- ---------------------------------------------------------------------------
-- Levels of values
-- ---------------------------------------------------------------------------

theorem Value.WellFormed.depth_eq {value : Value} (h : value.WellFormed) : value.depth = 0 := by
  cases h <;> rfl

section
variable {p : Type} {limit : Nat}

namespace Expr

theorem forall_fillItems {P : Value → Prop} {S : Event → Prop} {items : List (Expr p)}
    (h : ∀ item ∈ items, ∀ events, (∀ event ∈ events, S event) → P (item.fill events))
    {events : List Event} (hevents : ∀ event ∈ events, S event) :
    ∀ value ∈ fillItems items events, P value := by
  induction items generalizing events with
  | nil => simp [fillItems]
  | cons item items ih =>
    rw [List.forall_mem_cons] at h
    rw [fillItems, List.forall_mem_cons]
    exact ⟨h.1 _ fun event hmem => hevents event (List.mem_of_mem_take hmem),
      ih h.2 fun event hmem => hevents event (List.mem_of_mem_drop hmem)⟩

theorem forall_fillEntries {P : Value → Prop} {S : Event → Prop} {entries : List (Expr p × Expr p)}
    (h : ∀ entry ∈ entries, ∀ events, (∀ event ∈ events, S event) →
      P (entry.1.fill events) ∧ P (entry.2.fill events))
    {events : List Event} (hevents : ∀ event ∈ events, S event) :
    ∀ entry ∈ fillEntries entries events, P entry.1 ∧ P entry.2 := by
  induction entries generalizing events with
  | nil => simp [fillEntries]
  | cons entry entries ih =>
    rw [List.forall_mem_cons] at h
    have hothers : ∀ event ∈ events.drop entry.1.nodes.length, S event := fun event hmem =>
      hevents event (List.mem_of_mem_drop hmem)
    rw [fillEntries, List.forall_mem_cons]
    exact ⟨⟨(h.1 _ fun event hmem => hevents event (List.mem_of_mem_take hmem)).1,
      (h.1 _ fun event hmem => hothers event (List.mem_of_mem_take hmem)).2⟩,
      ih h.2 fun event hmem => hothers event (List.mem_of_mem_drop hmem)⟩

/-- A value has at most the levels of its expression and those of an answer. -/
theorem depth_fill {e : Expr p} (h : e.WellFormed) {events : List Event}
    (hevents : ∀ event ∈ events, event.answer.depth ≤ limit) :
    (e.fill events).depth ≤ e.nesting + limit := by
  induction h generalizing events with
  | literal hvalue =>
    rw [fill, hvalue.depth_eq]
    exact Nat.zero_le _
  | @list items separator _ _ _ ih =>
    refine Value.itemsDepth_le.2 (forall_fillItems (fun item hitem events hevents => ?_) hevents)
    exact Nat.lt_of_le_of_lt (ih item hitem hevents)
      (Nat.add_lt_add_right (nesting_lt_list item hitem) limit)
  | @map entries _ _ _ ihkey ihvalue =>
    refine Value.entriesDepth_le.2 (forall_fillEntries
      (P := fun v => v.depth < (map entries).nesting + limit) ?_ hevents)
    intro entry hentry events hevents
    obtain ⟨hkey, hvalue⟩ := nesting_lt_map entry hentry
    exact ⟨Nat.lt_of_le_of_lt (ihkey entry hentry hevents) (Nat.add_lt_add_right hkey limit),
      Nat.lt_of_le_of_lt (ihvalue entry hentry hevents) (Nat.add_lt_add_right hvalue limit)⟩
  | call =>
    rw [fill]
    cases hlast : events.getLast? with
    | none => exact Nat.zero_le _
    | some event => exact Nat.le_add_left_of_le (hevents event (List.mem_of_getLast? hlast))

end Expr

-- ---------------------------------------------------------------------------
-- Nodes
-- ---------------------------------------------------------------------------

def Node.parts : Node p → List (Expr p)
  | .call _ args _ => args
  | .declaration d => [d.value]

def Event.printedValues : Event → List Value
  | .dispatch .. => []
  | .plain _ args _ _ => args
  | .declare _ value _ _ => [value]

theorem Event.depth_answer_of_uncalled {event : Event} (h : event.called? = none) :
    event.answer.depth = 0 := by
  cases event with
  | dispatch => cases h
  | plain name args place text => cases text <;> rfl
  | declare => rfl

/-- The parts of the node are well formed, and so many lists, maps and calls lie in each other. -/
def Node.Bounded (n : Nat) (node : Node p) : Prop :=
  ∀ part ∈ node.parts, part.WellFormed ∧ part.nesting ≤ n

theorem Expr.bounded_nodes {n : Nat} {e : Expr p} (h : e.WellFormed) (hn : e.nesting ≤ n) :
    ∀ node ∈ e.nodes, node.Bounded n := by
  induction h with
  | literal => simp [nodes]
  | @list items separator _ _ _ ih =>
    rw [nodes, itemsNodes_eq, List.forall_mem_flatMap]
    exact fun item hitem => ih item hitem
      (Nat.le_trans (Nat.le_of_lt (nesting_lt_list item hitem)) hn)
  | @map entries _ _ _ ihkey ihvalue =>
    rw [nodes, entriesNodes_eq, List.forall_mem_flatMap]
    intro entry hentry
    obtain ⟨hkey, hvalue⟩ := nesting_lt_map entry hentry
    rw [List.forall_mem_append]
    exact ⟨ihkey entry hentry (Nat.le_trans (Nat.le_of_lt hkey) hn),
      ihvalue entry hentry (Nat.le_trans (Nat.le_of_lt hvalue) hn)⟩
  | @call name args place _ hargs ih =>
    have hlt : ∀ arg ∈ args, arg.nesting ≤ n := fun arg harg =>
      Nat.le_trans (Nat.le_of_lt (nesting_lt_call arg harg)) hn
    rw [nodes, itemsNodes_eq, List.forall_mem_append, List.forall_mem_flatMap,
      List.forall_mem_singleton]
    exact ⟨fun arg harg => ih arg harg (hlt arg harg),
      fun arg harg => ⟨hargs arg harg, hlt arg harg⟩⟩

theorem Declaration.bounded_nodes {n : Nat} {d : Declaration p} (h : d.value.WellFormed)
    (hn : d.value.nesting ≤ n) : ∀ node ∈ d.nodes, node.Bounded n := by
  rw [nodes, List.forall_mem_append, List.forall_mem_singleton]
  exact ⟨Expr.bounded_nodes h hn, List.forall_mem_singleton.2 ⟨h, hn⟩⟩

theorem Event.ComesOf.depth_le {setting : Setting} {bound : String → Bool} {past : List Event}
    {node : Node Location} {event : Event} (h : event.ComesOf setting bound past node) {n : Nat}
    (hnode : node.Bounded n) (hpast : ∀ event ∈ past, event.answer.depth ≤ limit) :
    ∀ v ∈ event.printedValues, v.depth ≤ n + limit := by
  have hfill : ∀ part ∈ node.parts, ∀ events : List Event,
      (∀ event ∈ events, event.answer.depth ≤ limit) → (part.fill events).depth ≤ n + limit :=
    fun part hpart events hevents => Nat.le_trans (Expr.depth_fill (hnode part hpart).1 hevents)
      (Nat.add_le_add_right (hnode part hpart).2 limit)
  have hlast : ∀ k, ∀ event ∈ past.rtake k, event.answer.depth ≤ limit := fun k event hevent =>
    hpast event (List.mem_of_mem_drop hevent)
  cases node with
  | call name args place =>
    simp only [ComesOf] at h
    split at h
    · obtain ⟨outcome, rfl⟩ := h
      simp [printedValues]
    · subst h
      exact Expr.forall_fillItems hfill (hlast _)
  | declaration d =>
    simp only [ComesOf] at h
    subst h
    exact List.forall_mem_singleton.2 (hfill d.value (List.mem_singleton_self _) _ (hlast _))

end

-- ---------------------------------------------------------------------------
-- Sheets
-- ---------------------------------------------------------------------------

section
variable {source : String} {sheet : Sheet Location} (h : Sheet.parse source = .ok sheet)
include h

theorem Sheet.bounded_nodes : ∀ node ∈ Sheet.nodes sheet, node.Bounded (2 * maxNesting + 2) := by
  rw [Sheet.nodes, List.forall_mem_flatMap]
  intro rule hrule
  have hnesting : rule.Each fun r => ∀ d, Item.declaration d ∈ r.items →
      d.value.nesting ≤ 2 * maxNesting + 2 := by
    refine .of_encloses fun n inner hinner d hd => ?_
    have hle := ((Sheet.nesting_of_parse h hrule hinner).2 d hd).2
    omega
  have hwell : rule.Each Rule.WellFormed :=
    Sheet.each_of_parse h (fun _ hr _ => hr.wellFormed.mapPlaces _) rule hrule
  refine ((hwell.and hnesting).imp fun r hr d hd => ?_).forall_nodes
  exact Declaration.bounded_nodes (hr.1.value d hd) (hr.2 d hd)

theorem Session.printsWithin {σ : Type} {limit : Nat} (s : Session σ)
    (hcalls : ∀ event ∈ (s.course sheet).1, event.called?.isSome = true →
      event.answer.depth ≤ limit) :
    ∀ event ∈ (s.course sheet).1, ∀ v ∈ event.printedValues,
      s.setting.formatter.PrintsWithin (2 * maxNesting + 3 + limit) v := by
  have hanswers : ∀ event ∈ (s.course sheet).1, event.answer.depth ≤ limit := by
    intro event hevent
    cases hcalled : event.called? with
    | none => exact Event.depth_answer_of_uncalled hcalled ▸ Nat.zero_le limit
    | some call => exact hcalls event hevent (Option.isSome_of_eq_some hcalled)
  intro event hevent v hv
  obtain ⟨i, hi⟩ := List.getElem?_of_mem hevent
  obtain ⟨node, hnode, hcomes⟩ := (s.setting.isCourse_course _ _).comes i event hi
  have hbounded := Sheet.bounded_nodes h node (List.mem_of_getElem? hnode)
  have hdepth := hcomes.depth_le hbounded (fun event hmem =>
    hanswers event (List.mem_of_mem_take hmem)) v hv
  exact s.setting.formatter.printsWithin (by omega)

end

/-- Rules, groups and calls nest 256 levels at most. What the rules around a value leave of them
bounds its calls; twice as much, and two at its top, bounds its lists, maps and calls. So an
evaluation has a bounded number of calls inside one another, and so has the printing of values,
beside the levels of what functions of the host answered with, if any were called. A number in
parentheses is read up to the limit, and otherwise the first opening parenthesis behind it is
reported. -/
theorem recursion_bounded :
    (∀ source sheet, Sheet.parse source = .ok sheet →
      (∀ rule ∈ sheet, ∀ r inner, rule.Encloses r inner → r ≤ 256 ∧
        ∀ d, Item.declaration d ∈ inner.items →
          d.value.callNesting ≤ 256 - r ∧ d.value.nesting ≤ 2 * (256 - r) + 2) ∧
      (∀ (σ : Type) (setting : Setting), setting.EvaluatesWithin σ 257 515 sheet) ∧
      (∀ (σ : Type) (s : Session σ) (limit : Nat),
        (∀ event ∈ (s.course sheet).1, event.called?.isSome = true → event.answer.depth ≤ limit) →
        ∀ event ∈ (s.course sheet).1, ∀ v ∈ event.printedValues,
          s.setting.formatter.PrintsWithin (515 + limit) v)) ∧
    (∀ sels name, (⟨sels, []⟩ : Block).Writable → WritableProperty name →
      ∀ k s, LaidSheet [wrappedBlock sels name k] s →
        ((∃ sheet, Sheet.parse (String.ofList s) = .ok sheet) ↔ k ≤ 256) ∧
        (256 < k → ∃ before after e, s = before ++ '(' :: after ∧ before.count '(' = 256 ∧
          Sheet.parse (String.ofList s) = .error e ∧ e.cause.message = "nesting too deep." ∧
          e.offset = Source.byteLength before)) := by
  refine ⟨fun source sheet h => ⟨?_, ?_, ?_⟩, fun sels name hb hname k s hs => ⟨⟨?_, ?_⟩, ?_⟩⟩
  · exact fun rule hrule r inner hinner => Sheet.nesting_of_parse h hrule hinner
  · refine fun σ setting => setting.evaluatesWithin fun rule hrule r inner hinner => ?_
    obtain ⟨hr, hdeclared⟩ := Sheet.nesting_of_parse h hrule hinner
    refine ⟨Nat.lt_succ_of_le hr, fun d hd => Nat.lt_succ_of_le ?_⟩
    exact Nat.le_trans (hdeclared d hd).2
      (Nat.add_le_add_right (Nat.mul_le_mul_left 2 (Nat.sub_le _ _)) 2)
  · exact fun σ s limit hcalls => s.printsWithin h hcalls
  · rintro ⟨sheet, hsheet⟩
    by_contra hk
    obtain ⟨before, after, -, -, herror⟩ :=
      parse_wrapped_error hb hname hs (Nat.lt_of_not_le hk)
    rw [hsheet] at herror
    cases herror
  · exact parse_wrapped hb hname hs
  · intro hk
    obtain ⟨before, after, htext, hcount, herror⟩ := parse_wrapped_error hb hname hs hk
    exact ⟨before, after, _, htext, hcount, herror, rfl, rfl⟩

/-- A call in a call in a rule in a rule, to a function that answers with a list of its argument;
and one pair of parentheses too many. -/
theorem recursion_bounded_nested :
    let wrap : Callback Unit := fun call => CallM.put (.list call.args .comma)
    let s : Session Unit :=
      { Session.ofConfig 0 {} () with registry := ((Registry.empty ()).register "f($x)" wrap).2 }
    (∃ sheet, Sheet.parse "a\x7bb\x7bc:g(f(f(1)))\x7d\x7d" = .ok sheet ∧
      sheet.preorder.map (fun rule => (rule.1, rule.2.length)) =
        [([["a"]], 1), ([["a"], ["b"]], 1)] ∧
      (∀ rule ∈ sheet, ∀ r inner, rule.Encloses r inner → r ≤ 256 ∧
        ∀ d, Item.declaration d ∈ inner.items →
          d.value.callNesting ≤ 256 - r ∧ d.value.nesting ≤ 2 * (256 - r) + 2) ∧
      s.setting.EvaluatesWithin Unit 257 515 sheet ∧
      (∀ event ∈ (s.course sheet).1, event.called?.isSome = true → event.answer.depth ≤ 2) ∧
      ∀ event ∈ (s.course sheet).1, ∀ v ∈ event.printedValues,
        s.setting.formatter.PrintsWithin 517 v) ∧
    (⟨["a"], []⟩ : Block).Writable ∧ WritableProperty "b" ∧
    ∃ text before after e, LaidSheet [wrappedBlock ["a"] "b" 257] text ∧
      text = before ++ '(' :: after ∧ before.count '(' = 256 ∧
      Sheet.parse (String.ofList text) = .error e ∧ e.cause.message = "nesting too deep." ∧
      e.offset = Source.byteLength before := by
  intro wrap s
  have hshape : ((Sheet.parse "a\x7bb\x7bc:g(f(f(1)))\x7d\x7d").map fun sheet =>
      (sheet.preorder.map fun rule => (rule.1, rule.2.length),
        decide (∀ event ∈ (s.course sheet).1, event.called?.isSome = true →
          event.answer.depth ≤ 2))).toOption =
      some ([([["a"]], 1), ([["a"], ["b"]], 1)], true) := by
    decide +kernel
  have hb : (⟨["a"], []⟩ : Block).Writable := by decide
  have hname : WritableProperty "b" := by decide
  refine ⟨?_, hb, hname, ?_⟩
  · cases h : Sheet.parse "a\x7bb\x7bc:g(f(f(1)))\x7d\x7d" with
    | error e =>
      rw [h] at hshape
      cases hshape
    | ok sheet =>
      rw [h] at hshape
      obtain ⟨hpreorder, hcalls⟩ := Prod.ext_iff.1 (Option.some.inj hshape)
      have hcalls : ∀ event ∈ (s.course sheet).1, event.called?.isSome = true →
          event.answer.depth ≤ 2 :=
        of_decide_eq_true hcalls
      obtain ⟨hnesting, hevaluates, hprints⟩ := recursion_bounded.1 _ sheet h
      exact ⟨sheet, rfl, hpreorder, hnesting, hevaluates Unit s.setting, hcalls,
        hprints Unit s 2 hcalls⟩
  · have hlaid : LaidSheet [wrappedBlock ["a"] "b" 257] _ :=
      .cons blank_nil blank_nil blank_nil (.last blank_nil blank_nil) (.nil blank_nil)
    obtain ⟨before, after, e, herror⟩ :=
      (recursion_bounded.2 ["a"] "b" hb hname 257 _ hlaid).2 (by decide)
    exact ⟨_, before, after, e, hlaid, herror⟩

end HostSheet

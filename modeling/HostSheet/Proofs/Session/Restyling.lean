import HostSheet.Proofs.Css.Skeletons
import HostSheet.Proofs.Session.Failing
import HostSheet.Proofs.Session.Printing

/-!
# Output style and precision

Where no functions are bound, the texts of plain calls are the only values of a sheet that depend on
how things are printed, and no text decides what is printed, left out or refused. So the same comes
of every node in any output style and with any precision, up to the texts.
-/

namespace HostSheet

variable {σ τ : Type}

-- ---------------------------------------------------------------------------
-- Events
-- ---------------------------------------------------------------------------

namespace Event

def skeleton : Event → Event
  | .dispatch name args place outcome =>
    .dispatch name (args.map Value.skeleton) place (outcome.map Value.skeleton)
  | .plain name args place text =>
    .plain name (args.map Value.skeleton) place (wordless (fun _ => "") text)
  | .declare property value place text =>
    .declare property value.skeleton place (wordless (Option.map fun _ => "") text)

theorem answer_skeleton (event : Event) : event.skeleton.answer = event.answer.skeleton := by
  cases event with
  | dispatch name args place outcome =>
    rcases outcome with e | value
    · rfl
    · cases value <;> rfl
  | plain name args place text => cases text <;> rfl
  | declare property value place text => rfl

def failedAt? (event : Event) : Option Location :=
  event.failure?.map CompileError.place

theorem failedAt?_skeleton (event : Event) : event.skeleton.failedAt? = event.failedAt? := by
  cases event with
  | dispatch name args place outcome => cases outcome <;> rfl
  | plain name args place text => cases text <;> rfl
  | declare property value place text => cases text <;> rfl

theorem isSome_failure?_congr {event event' : Event} (h : event.skeleton = event'.skeleton) :
    event.failure?.isSome = event'.failure?.isSome := by
  have hplaces : event.failedAt? = event'.failedAt? := by
    rw [← failedAt?_skeleton, h, failedAt?_skeleton]
  simpa [failedAt?] using congrArg Option.isSome hplaces

end Event

def Printed.skeleton (printed : Printed) : Printed :=
  printed.map fun declaration => (declaration.1, "")

theorem Event.printed?_skeleton (event : Event) :
    event.skeleton.printed? = Printed.skeleton event.printed? := by
  cases event with
  | dispatch name args place outcome => rfl
  | plain name args place text => rfl
  | declare property value place text => rcases text with e | _ | text <;> rfl

def SameEvents (events events' : List Event) : Prop :=
  events.map Event.skeleton = events'.map Event.skeleton

namespace SameEvents

variable {events events' others others' : List Event}

theorem append (h : SameEvents events events') (hothers : SameEvents others others') :
    SameEvents (events ++ others) (events' ++ others') := by
  rw [SameEvents, List.map_append, List.map_append, h, hothers]

theorem take (h : SameEvents events events') (n : Nat) :
    SameEvents (events.take n) (events'.take n) := by
  rw [SameEvents, List.map_take, List.map_take, h]

theorem drop (h : SameEvents events events') (n : Nat) :
    SameEvents (events.drop n) (events'.drop n) := by
  rw [SameEvents, List.map_drop, List.map_drop, h]

theorem rtake (h : SameEvents events events') (n : Nat) :
    SameEvents (events.rtake n) (events'.rtake n) := by
  have hlength : events.length = events'.length := by simpa using congrArg List.length h
  rw [List.rtake, List.rtake, hlength]
  exact h.drop _

theorem answer_eq (h : SameEvents events events') :
    ((events.getLast?.map Event.answer).getD .null).skeleton =
      ((events'.getLast?.map Event.answer).getD .null).skeleton := by
  have hanswer (events : List Event) :
      ((events.getLast?.map Event.answer).getD .null).skeleton =
        ((events.map Event.skeleton).getLast?.map Event.answer).getD .null := by
    rw [List.getLast?_map]
    cases events.getLast? with
    | none => rfl
    | some event => exact event.answer_skeleton.symm
  rw [hanswer, hanswer, h]

theorem printed_eq (h : SameEvents events events') :
    Printed.skeleton (events.getLast?.bind Event.printed?) =
      Printed.skeleton (events'.getLast?.bind Event.printed?) := by
  have hprinted (events : List Event) :
      Printed.skeleton (events.getLast?.bind Event.printed?) =
        (events.map Event.skeleton).getLast?.bind Event.printed? := by
    rw [List.getLast?_map]
    cases events.getLast? with
    | none => rfl
    | some event => exact event.printed?_skeleton.symm
  rw [hprinted, hprinted, h]

theorem firstFailure_eq (h : SameEvents events events') :
    (Setting.firstFailure events).map CompileError.place =
      (Setting.firstFailure events').map CompileError.place := by
  have hplaces (events : List Event) : (Setting.firstFailure events).map CompileError.place =
      (events.map Event.skeleton).findSome? Event.failedAt? := by
    rw [Setting.firstFailure, List.map_findSome?, List.findSome?_map]
    exact congrArg (events.findSome? ·) (funext fun event => event.failedAt?_skeleton.symm)
  rw [hplaces, hplaces, h]

end SameEvents

-- ---------------------------------------------------------------------------
-- Expressions
-- ---------------------------------------------------------------------------

section
variable {p : Type} {events events' : List Event}

theorem Expr.skeleton_fillItems {items : List (Expr p)} (h : ∀ item ∈ items, ∀ {events events'},
      SameEvents events events' → (item.fill events).skeleton = (item.fill events').skeleton)
    (hevents : SameEvents events events') :
    (fillItems items events).map Value.skeleton = (fillItems items events').map Value.skeleton := by
  induction items generalizing events events' with
  | nil => rfl
  | cons item items ih =>
    rw [List.forall_mem_cons] at h
    rw [fillItems, fillItems, List.map_cons, List.map_cons, h.1 (hevents.take _),
      ih h.2 (hevents.drop _)]

theorem Expr.skeleton_fill (e : Expr p) (h : SameEvents events events') :
    (e.fill events).skeleton = (e.fill events').skeleton := by
  induction e using Expr.treeInduction generalizing events events' with
  | literal value => rfl
  | list items separator ih =>
    rw [fill, fill, Value.skeleton, Value.skeleton, Value.itemsSkeleton_eq, Value.itemsSkeleton_eq,
      skeleton_fillItems ih h]
  | map entries ih => rfl
  | call name args place ih => exact h.answer_eq

end

-- ---------------------------------------------------------------------------
-- Courses
-- ---------------------------------------------------------------------------

theorem Formatter.fails_plainCall {f g : Formatter} {name : String} {args : List Value} :
    Fails (f.plainCall name args) ↔ ∃ value ∈ args.map Value.skeleton, Fails (g.value value) := by
  have hcall : Fails (f.plainCall name args) ↔ Fails (args.mapM f.value) := by
    simp only [Fails, plainCall, return_error]
  simp only [hcall, fails_mapM, List.mem_map, exists_exists_and_eq_and,
    fails_value_skeleton (g := f)]

theorem Formatter.wordless_plainCall (f g : Formatter) (name : String) {args args' : List Value}
    (h : args.map Value.skeleton = args'.map Value.skeleton) :
    wordless (fun _ => "") (f.plainCall name args) =
      wordless (fun _ => "") (g.plainCall name args') := by
  refine wordless_eq_of_fails ?_
  rw [fails_plainCall (g := f), h, fails_plainCall]

theorem Registry.contains_of_empty {r : Registry σ} (h : r.entries = []) (name : String) :
    r.contains name = false := by
  rw [contains, find?, h]
  rfl

namespace Setting

variable {r : Registry σ} {r' : Registry τ} {past past' : List Event}

/-- Where nothing is bound, the same comes of a node in every setting, and the registry stays as it
is. -/
theorem meet_skeleton (setting setting' : Setting) (hr : r.entries = []) (hr' : r'.entries = [])
    (h : SameEvents past past') (node : Node Location) :
    (setting.meet r past node).1.skeleton = (setting'.meet r' past' node).1.skeleton ∧
      (setting.meet r past node).2 = r ∧ (setting'.meet r' past' node).2 = r' := by
  cases node with
  | declaration d =>
    have hvalue := d.value.skeleton_fill (h.rtake d.value.nodes.length)
    refine ⟨?_, rfl, rfl⟩
    rw [meet, meet, Event.skeleton, Event.skeleton, hvalue,
      setting.formatter.wordless_value setting'.formatter hvalue]
  | call name args place =>
    let count := (Expr.itemsNodes args).length
    have hargs : (Expr.fillItems args (past.rtake count)).map Value.skeleton =
        (Expr.fillItems args (past'.rtake count)).map Value.skeleton :=
      Expr.skeleton_fillItems (fun item _ => item.skeleton_fill) (h.rtake count)
    simp only [meet, Registry.contains_of_empty hr, Registry.contains_of_empty hr',
      Bool.false_eq_true, if_false, and_true]
    rw [Event.skeleton, Event.skeleton, hargs,
      setting.formatter.wordless_plainCall setting'.formatter name hargs]

theorem course_skeleton (setting setting' : Setting) (hr : r.entries = []) (hr' : r'.entries = [])
    (h : SameEvents past past') (nodes : List (Node Location)) :
    SameEvents (setting.course r past nodes).1 (setting'.course r' past' nodes).1 := by
  -- Nothing gets bound on the way, and what is behind a node stays the same up to texts.
  rw [SameEvents, ← List.forall₂_eq_eq_eq, List.forall₂_map_left_iff, List.forall₂_map_right_iff]
  refine course_simulates (I := fun r r' past past' _ => r.entries = [] ∧ r'.entries = [] ∧
    SameEvents past past') ?_ (fun _ _ => Event.isSome_failure?_congr) ⟨hr, hr', h⟩
  rintro r r' past past' node nodes ⟨hr, hr', h⟩
  obtain ⟨hevent, hleft, hleft'⟩ := meet_skeleton setting setting' hr hr' h node
  have hone : SameEvents [(setting.meet r past node).1] [(setting'.meet r' past' node).1] :=
    congrArg (fun event => [event]) hevent
  exact ⟨hevent, hleft.symm ▸ hr, hleft'.symm ▸ hr', h.append hone⟩

end Setting

-- ---------------------------------------------------------------------------
-- Blocks
-- ---------------------------------------------------------------------------

section
variable {p : Type} {events events' : List Event}

theorem Item.printed_skeleton {items : List (Item p)} (h : SameEvents events events') :
    Item.mapPlacesAll Printed.skeleton (Item.printed items events) =
      Item.mapPlacesAll Printed.skeleton (Item.printed items events') := by
  induction items using Item.treeInduction generalizing events events' with
  | nil => rfl
  | declaration d items ih =>
    simp only [Item.printed, Item.mapPlacesAll, Item.mapPlaces, Declaration.mapPlaces,
      (h.take d.nodes.length).printed_eq, ih (h.drop _)]
  | rule selectors inner place items hinner ih =>
    simp only [Item.printed, Item.mapPlacesAll, Item.mapPlaces, Rule.printed, Rule.mapPlaces, 
      hinner (h.take _), ih (h.drop _)]

theorem Rule.printed_skeleton (rule : Rule p) (h : SameEvents events events') :
    (rule.printed events).mapPlaces Printed.skeleton =
      (rule.printed events').mapPlaces Printed.skeleton := by
  cases rule with
  | mk selectors items place => simp only [Rule.printed, Rule.mapPlaces, Item.printed_skeleton h]

theorem Sheet.printed_skeleton (sheet : Sheet p) (h : SameEvents events events') :
    (Sheet.printed sheet events).map (Rule.mapPlaces Printed.skeleton) =
      (Sheet.printed sheet events').map (Rule.mapPlaces Printed.skeleton) := by
  induction sheet generalizing events events' with
  | nil => rfl
  | cons rule rules ih =>
    rw [Sheet.printed, Sheet.printed, List.map_cons, List.map_cons,
      rule.printed_skeleton (h.take _), ih (h.drop _)]

end

def Block.skeleton (block : Block) : Block :=
  ⟨block.selectors, block.declarations.map fun declaration => (declaration.1, "")⟩

theorem Item.own_skeleton (items : List (Item Printed)) :
    (Item.mapPlacesAll Printed.skeleton items).filterMap Item.own? =
      (items.filterMap Item.own?).map fun declaration => (declaration.1, "") := by
  induction items with
  | nil => rfl
  | cons item items ih =>
    cases item with
    | declaration d =>
      rw [mapPlacesAll, mapPlaces, filterMap_own?_declaration, filterMap_own?_declaration, ih,
        List.map_append]
      congr 1
      exact Option.toList_map
    | rule r => exact ih

theorem Item.blocks_skeleton (items : List (Item Printed)) (selectors : List String) :
    Item.blocks selectors (Item.mapPlacesAll Printed.skeleton items) =
      (Item.blocks selectors items).map Block.skeleton := by
  induction items using Item.treeInduction generalizing selectors with
  | nil => rfl
  | declaration d items ih => exact ih selectors
  | rule inherited inner place items hinner ih =>
    rw [Item.mapPlacesAll, Item.mapPlaces, Rule.mapPlaces, Item.blocks, Item.blocks, Rule.blocks,
      Rule.blocks, hinner, ih, Item.own_skeleton, List.map_append, List.map_cons]
    rfl

theorem Rule.blocks_skeleton (rule : Rule Printed) (parents : List String) :
    (rule.mapPlaces Printed.skeleton).blocks parents =
      (rule.blocks parents).map Block.skeleton := by
  cases rule with
  | mk selectors items place =>
    rw [Rule.mapPlaces, Rule.blocks, Rule.blocks, Item.own_skeleton, Item.blocks_skeleton,
      List.map_cons]
    rfl

theorem Sheet.blocks_skeleton (sheet : Sheet Printed) :
    Sheet.blocks (sheet.map (Rule.mapPlaces Printed.skeleton)) =
      sheet.blocks.map Block.skeleton := by
  rw [Sheet.blocks, Sheet.blocks, List.flatMap_map, List.map_flatMap]
  exact List.flatMap_congr fun rule _ => rule.blocks_skeleton []

theorem Sheet.forall₂_blocks {printed printed' : Sheet Printed}
    (h : printed.map (Rule.mapPlaces Printed.skeleton) =
      printed'.map (Rule.mapPlaces Printed.skeleton)) :
    List.Forall₂ (fun block block' => block.selectors = block'.selectors ∧
        block.declarations.map Prod.fst = block'.declarations.map Prod.fst)
      (Sheet.blocks printed) (Sheet.blocks printed') := by
  have hblocks : (Sheet.blocks printed).map Block.skeleton =
      (Sheet.blocks printed').map Block.skeleton := by
    rw [← Sheet.blocks_skeleton, h, Sheet.blocks_skeleton]
  rw [← List.forall₂_eq_eq_eq, List.forall₂_map_left_iff, List.forall₂_map_right_iff] at hblocks
  refine hblocks.imp fun block block' hblock => ?_
  obtain ⟨hselectors, hdeclarations⟩ := Block.mk.inj hblock
  refine ⟨hselectors, ?_⟩
  simpa [Function.comp_def] using congrArg (List.map Prod.fst) hdeclarations

-- ---------------------------------------------------------------------------
-- Compilations
-- ---------------------------------------------------------------------------

namespace Session

variable {s : Session σ} {t : Session τ}

theorem report_eq (hname : s.info.sourceName = t.info.sourceName)
    (hcontext : s.config.compile.contextLines = t.config.compile.contextLines)
    (source message message' : String) (place : Location) :
    t.report source .error message' place =
      { s.report source .error message place with message := message' } := by
  rw [report, report, hname, hcontext]
  rfl

/-- Sessions that bind no functions, and that show sources alike, compile a source alike whatever
their output styles and precisions are. Either both succeed, with printed sheets that differ in
nothing but texts: the same declarations are left out, and the blocks have the same selectors and
the same properties in the same order. Or both fail with diagnostics that differ in nothing but
their messages. -/
theorem compile_restyled (hs : s.registry.entries = []) (ht : t.registry.entries = [])
    (hname : s.info.sourceName = t.info.sourceName)
    (hcontext : s.config.compile.contextLines = t.config.compile.contextLines) (source : String) :
    (∃ sheet printed printed',
      Sheet.parse source = .ok sheet ∧
      printed.map (Rule.mapPlaces fun _ => ()) = sheet.map (Rule.mapPlaces fun _ => ()) ∧
      printed.map (Rule.mapPlaces Printed.skeleton) =
        printed'.map (Rule.mapPlaces Printed.skeleton) ∧
      (s.evaluate source).1 = .ok (Sheet.blocks printed) ∧
      (t.evaluate source).1 = .ok (Sheet.blocks printed') ∧
      (s.compile source).1 =
        .ok (Block.render (Sheet.blocks printed) s.config.compile.outputStyle) ∧
      (t.compile source).1 =
        .ok (Block.render (Sheet.blocks printed') t.config.compile.outputStyle) ∧
      List.Forall₂ (fun block block' => block.selectors = block'.selectors ∧
          block.declarations.map Prod.fst = block'.declarations.map Prod.fst)
        (Sheet.blocks printed) (Sheet.blocks printed')) ∨
    ∃ d message, (s.compile source).1 = .error d ∧
      (t.compile source).1 = .error { d with message } := by
  have hreport := report_eq hname hcontext source
  cases hparse : Sheet.parse source with
  | error e =>
    refine .inr ⟨_, e.message, compile_of_unreadable hparse, ?_⟩
    rw [compile_of_unreadable hparse, hreport e.message]
  | ok sheet =>
    have hevents : SameEvents (s.course sheet).1 (t.course sheet).1 :=
      Setting.course_skeleton s.setting t.setting hs ht rfl (Sheet.nodes sheet)
    have hfailed := hevents.firstFailure_eq
    cases hfailure : Setting.firstFailure (s.course sheet).1 with
    | some e =>
      rw [hfailure] at hfailed
      obtain ⟨e', hfailure', hplace⟩ := Option.map_eq_some_iff.1 hfailed.symm
      refine .inr ⟨_, e'.cause.message, (compile_error_iff hparse).2 ⟨e, hfailure, rfl⟩,
        (compile_error_iff hparse).2 ⟨e', hfailure', ?_⟩⟩
      rw [hplace, hreport e.cause.message]
    | none =>
      rw [hfailure] at hfailed
      have hfailure' := Option.map_eq_none_iff.1 hfailed.symm
      have hprinted := Sheet.printed_skeleton sheet hevents
      obtain ⟨hevaluate, hcompile⟩ := compile_of_success hparse hfailure
      obtain ⟨hevaluate', hcompile'⟩ := compile_of_success hparse hfailure'
      exact .inl ⟨sheet, _, _, rfl, Sheet.mapPlaces_printed sheet _, hprinted, hevaluate,
        hevaluate', hcompile, hcompile', Sheet.forall₂_blocks hprinted⟩

/-- One session prints numbers in full, the other one keeps things short. The texts of plain calls
inside plain calls differ then, and so does what the refusal of a map shows of it. -/
theorem compile_restyled_compressed :
    let s : Session Unit := .ofConfig 0 {} ()
    let t : Session Unit :=
      .ofConfig 1 { compile := { outputStyle := .compressed, precision := 2 } } ()
    let source :=
      "a\x7bb:f(g(0.12345,null),(null,2)) 3;c:null;&:hover,d\x7be:(null null);f:-1.5\x7d\x7d"
    let refused := "a \x7b\n  b: f(g((k: 0.12345)));\n\x7d"
    (s.compile source).1 = .ok ("a \x7b\n  b: f(g(0.12345), 2) 3;\n\x7d\n\n" ++
      "a:hover, a d \x7b\n  f: -1.5;\n\x7d\n") ∧
    (t.compile source).1 = .ok "a\x7bb:f(g(.12),2) 3\x7da:hover,a d\x7bf:-1.5\x7d\n" ∧
    (∃ printed printed', (s.evaluate source).1 = .ok (Sheet.blocks printed) ∧
      (t.evaluate source).1 = .ok (Sheet.blocks printed') ∧
      List.Forall₂ (fun block block' => block.selectors = block'.selectors ∧
          block.declarations.map Prod.fst = block'.declarations.map Prod.fst)
        (Sheet.blocks printed) (Sheet.blocks printed')) ∧
    ∃ d, (s.compile refused).1 = .error d ∧
      d.message = "(k: 0.12345) isn't a valid CSS value." ∧
      (t.compile refused).1 =
        .error { d with message := "(k: .12) isn't a valid CSS value." } := by
  intro s t source refused
  have hsource : (s.compile source).1 = .ok ("a \x7b\n  b: f(g(0.12345), 2) 3;\n\x7d\n\n" ++
      "a:hover, a d \x7b\n  f: -1.5;\n\x7d\n") := by decide +kernel
  have hsource' : (t.compile source).1 =
      .ok "a\x7bb:f(g(.12),2) 3\x7da:hover,a d\x7bf:-1.5\x7d\n" := by decide +kernel
  have hrefused : (s.compile refused).1.mapError Diagnostic.message =
      .error "(k: 0.12345) isn't a valid CSS value." := by decide +kernel
  have hrefused' : (t.compile refused).1.mapError Diagnostic.message =
      .error "(k: .12) isn't a valid CSS value." := by decide +kernel
  refine ⟨hsource, hsource', ?_, ?_⟩
  · obtain ⟨sheet, printed, printed', -, -, -, hevaluate, hevaluate', -, -, hblocks⟩ |
      ⟨d, message, hfails, -⟩ := compile_restyled (s := s) (t := t) rfl rfl rfl rfl source
    · exact ⟨printed, printed', hevaluate, hevaluate', hblocks⟩
    · cases hsource.symm.trans hfails
  · obtain ⟨sheet, printed, printed', -, -, -, -, -, hcompile, -⟩ | ⟨d, message, hfails, hfails'⟩ :=
      compile_restyled (s := s) (t := t) rfl rfl rfl rfl refused
    · rw [hcompile] at hrefused
      cases hrefused
    · rw [hfails] at hrefused
      rw [hfails'] at hrefused'
      obtain rfl : message = _ := Except.error.inj hrefused'
      exact ⟨d, hfails, Except.error.inj hrefused, hfails'⟩

end Session

end HostSheet

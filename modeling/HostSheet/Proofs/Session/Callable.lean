import HostSheet.Proofs.Call.Signatures
import HostSheet.Proofs.Css.Layout
import HostSheet.Proofs.Css.Quoting
import HostSheet.Proofs.Css.Scalars
import HostSheet.Proofs.Session.Independence
import HostSheet.Proofs.Sheet.WellFormed

/-!
# Names that can be called

Functions are registered by ASCII names, and a sheet calls names in letters of every script. Every
registered name can be called by a sheet, save a lone hyphen and names with a digit behind a hyphen
in front: these are taken for numbers, or for nothing, wherever they stand.
-/

namespace HostSheet

open Grammar

-- ---------------------------------------------------------------------------
-- Names on both sides
-- ---------------------------------------------------------------------------

/-- The name is neither a lone hyphen nor one with a digit behind it. -/
def Signature.Callable (sig : Signature) : Prop :=
  sig.name ≠ "-" ∧ ∀ c cs, sig.name.toList = '-' :: c :: cs → ¬ ('0' ≤ c ∧ c ≤ '9')

theorem isNameChar_of_isIdentRest {c : Char} (h : Signature.isIdentRest c = true) :
    isNameChar c = true := by
  simp only [Signature.isIdentRest, Char.isAlphanum, Bool.or_eq_true] at h
  rcases h with ((h | h) | h) | h
  · simp [isNameChar, Text.isLetter_of_isAlpha h]
  · simp [isNameChar, Text.isNumeral_of_isDigit h]
  · simp [isNameChar, h]
  · simp [isNameChar, h]

theorem isIdentStart_cases {c : Char} (h : Signature.isIdentStart c = true) :
    isNameStart c = true ∧ c ≠ '-' ∨ c = '-' := by
  simp only [Signature.isIdentStart, Bool.or_eq_true, beq_iff_eq] at h
  rcases h with (h | rfl) | rfl
  · refine .inl ⟨by simp [isNameStart, Text.isLetter_of_isAlpha h], ?_⟩
    rintro rfl
    cases h
  · exact .inl (by decide)
  · exact .inr rfl

theorem startsAfterHyphen_iff {c : Char} (h : Signature.isIdentRest c = true) (cs : List Char) :
    startsAfterHyphen (c :: cs) = true ↔ ¬ ('0' ≤ c ∧ c ≤ '9') := by
  rw [← isDigit_iff, Bool.not_eq_true]
  constructor
  · intro hstart
    simp only [startsAfterHyphen, Bool.or_eq_true, beq_iff_eq] at hstart
    rcases hstart with hstart | rfl
    · exact isDigit_of_isNameStart hstart
    · rfl
  · intro hdigit
    have hstart : Signature.isIdentStart c = true := by
      simpa [Signature.isIdentRest, Signature.isIdentStart, Char.isAlphanum, hdigit] using h
    rcases isIdentStart_cases hstart with ⟨hstart, -⟩ | rfl
    · simp [startsAfterHyphen, hstart]
    · rfl

/-- A name of the registry is an identifier of a sheet exactly if it can be called. -/
theorem isIdentifier_iff_callable {sig : Signature} (h : Signature.Name sig.name.toList) :
    isIdentifier sig.name.toList = true ↔ sig.Callable := by
  have hlone : sig.name = "-" ↔ sig.name.toList = ['-'] := by
    rw [← String.toList_inj]
    rfl
  rw [Signature.Callable, ne_eq, hlone]
  generalize sig.name.toList = cs at h
  obtain ⟨hstart, hrest⟩ := h
  rename_i c cs
  have hmore : cs.all isNameChar = true := List.all_eq_true.2 fun d hd =>
    isNameChar_of_isIdentRest (Signature.isIdentRest_iff.2 (hrest d hd))
  rw [isIdentifier, hmore, Bool.and_true]
  rcases isIdentStart_cases (Signature.isIdentStart_iff.2 hstart) with ⟨hname, hhyphen⟩ | rfl
  · simp [hname, hhyphen]
  · have hnot : isNameStart '-' = false := by decide
    cases cs with
    | nil => simp [startsAfterHyphen, hnot]
    | cons d cs =>
      have hd := startsAfterHyphen_iff (Signature.isIdentRest_iff.2 (hrest d List.mem_cons_self)) cs
      simp [hnot, hd]

-- ---------------------------------------------------------------------------
-- Calls without arguments
-- ---------------------------------------------------------------------------

theorem placeIn_self (s : List Char) : placeIn s s = ⟨1, 1⟩ := by
  rw [placeIn, Source.offsetOf, Nat.sub_self, Source.locate]
  cases s <;> rfl

theorem parse_call {name : String} (h : isIdentifier name.toList = true) :
    Expr.parse (name ++ "()") = .ok (.call name [] ⟨1, 1⟩) := by
  obtain ⟨c, cs, hcs, hstart, hnumber, hread⟩ :=
    reads_identifier h (show Stops isNameChar ['(', ')'] from stops_cons.2 (by decide))
  have htext : (name ++ "()").toList = c :: (cs ++ ['(', ')']) := by
    rw [String.toList_append, hcs]
    rfl
  obtain ⟨levels, hlevels⟩ : ∃ levels, maxNesting = levels + 1 := ⟨_, rfl⟩
  have hargs : ArgumentList (SpaceList (Primary levels)) ['(', ')'] [] [] :=
    .mk (.nil (.done (startsToken_cons.2 ⟨by decide, by simp⟩)))
  have hcall : Primary (levels + 1) (c :: (cs ++ ['(', ')']))
      (.call name [] (c :: (cs ++ ['(', ')']))) [] :=
    .name hnumber hstart (.call hread rfl hargs)
  refine Expr.parse_ok.2 ⟨_, htext ▸ readWhole_of_primary (hlevels ▸ hcall), ?_⟩
  rw [htext, Expr.mapPlaces, placeIn_self]
  rfl

-- ---------------------------------------------------------------------------
-- Calls of what is read
-- ---------------------------------------------------------------------------

theorem Expr.called_nodes {p : Type} (e : Expr p) :
    e.nodes.filterMap Node.called? = e.callNames := by
  induction e using Expr.treeInduction with
  | literal => rfl
  | list items separator ih =>
    rw [nodes, callNames, itemsNodes_eq, itemsCallNames_eq, List.filterMap_flatMap]
    exact List.flatMap_congr ih
  | map entries ih =>
    rw [nodes, callNames, entriesNodes_eq, entriesCallNames_eq, List.filterMap_flatMap]
    refine List.flatMap_congr fun entry he => ?_
    rw [List.filterMap_append, (ih entry he).1, (ih entry he).2]
  | call name args place ih =>
    rw [nodes, callNames, itemsNodes_eq, itemsCallNames_eq, List.filterMap_append,
      List.filterMap_flatMap]
    exact congrArg (· ++ [name]) (List.flatMap_congr ih)

theorem Expr.WellFormed.isIdentifier {p : Type} {e : Expr p} (h : e.WellFormed) :
    ∀ name ∈ e.callNames, HostSheet.isIdentifier name.toList = true := by
  induction h with
  | literal => simp [callNames]
  | list _ _ _ ih =>
    rw [callNames, itemsCallNames_eq, List.forall_mem_flatMap]
    exact ih
  | map _ _ _ ihkey ihvalue =>
    rw [callNames, entriesCallNames_eq, List.forall_mem_flatMap]
    exact fun entry he => List.forall_mem_append.2 ⟨ihkey entry he, ihvalue entry he⟩
  | call hname _ ih =>
    rw [callNames, itemsCallNames_eq, List.forall_mem_append, List.forall_mem_flatMap]
    exact ⟨ih, List.forall_mem_singleton.2 hname⟩

theorem Declaration.isIdentifier_of_called {p : Type} {d : Declaration p}
    (h : d.value.WellFormed) :
    ∀ node ∈ d.nodes, ∀ name ∈ node.called?, isIdentifier name.toList = true := by
  rw [nodes, List.forall_mem_append, List.forall_mem_singleton]
  refine ⟨fun node hnode name hname => h.isIdentifier name ?_, by simp [Node.called?]⟩
  rw [← Expr.called_nodes]
  exact List.mem_filterMap.2 ⟨node, hnode, hname⟩

theorem Sheet.isIdentifier_of_called {source : String} {sheet : Sheet Location}
    (h : Sheet.parse source = .ok sheet) :
    ∀ name ∈ sheet.called, isIdentifier name.toList = true := by
  have hwell : ∀ rule ∈ sheet, rule.Each Rule.WellFormed :=
    Sheet.each_of_parse h fun _ hr _ => hr.wellFormed.mapPlaces _
  intro name hname
  obtain ⟨node, hnode, hname⟩ := List.mem_filterMap.1 hname
  obtain ⟨rule, hrule, hnode⟩ := List.mem_flatMap.1 hnode
  have hdeclared : rule.Each fun r => ∀ d, Item.declaration d ∈ r.items →
      ∀ node ∈ d.nodes, ∀ name ∈ node.called?, isIdentifier name.toList = true :=
    (hwell rule hrule).imp fun r hr d hd => Declaration.isIdentifier_of_called (hr.value d hd)
  exact hdeclared.forall_nodes node hnode name hname

-- ---------------------------------------------------------------------------
-- Sheets that call
-- ---------------------------------------------------------------------------

theorem Sheet.called_of_value {text : String} (h : WritableValue text) :
    ∃ sheet e, Sheet.parse ("a\x7bb:" ++ text ++ "\x7d") = .ok sheet ∧
      Expr.parse text = .ok e ∧ sheet.called = e.callNames := by
  obtain ⟨r, item, hrules, hitems, d, e, rfl, -, he, hvalue⟩ := readRules_of_value
    (show WritableSelector "a" by decide) (show WritableProperty "b" by decide) h
  have hcalls : d.value.callNames = e.callNames := by
    rw [← Expr.callNames_mapPlaces (fun _ => ()), hvalue, Expr.callNames_mapPlaces]
  refine ⟨_, e, Sheet.parse_ok.2 ⟨[r], ?_, rfl⟩, he, ?_⟩
  · simpa using hrules
  · obtain ⟨selectors, items, place⟩ := r
    obtain rfl : items = [.declaration d] := hitems
    simp [called, Sheet.nodes, Rule.mapPlaces, Item.mapPlacesAll, Item.mapPlaces, Rule.nodes,
      Item.nodes, Declaration.nodes, Declaration.mapPlaces, Expr.called_nodes,
      Expr.callNames_mapPlaces, Node.called?, hcalls]

theorem forall_isNameChar {cs : List Char} (h : isIdentifier cs = true) :
    ∀ c ∈ cs, isNameChar c = true := by
  cases cs with
  | nil => simp
  | cons c cs =>
    simp only [isIdentifier, Bool.and_eq_true, Bool.or_eq_true, beq_iff_eq, List.all_eq_true] at h
    refine List.forall_mem_cons.2 ⟨?_, h.2⟩
    rcases h.1 with hstart | ⟨rfl, -⟩
    · exact isNameChar_of_isNameStart hstart
    · decide

theorem writableValue_call {name : String} (h : isIdentifier name.toList = true) :
    WritableValue (name ++ "()") := by
  refine ⟨⟨_, parse_call h⟩, noLineComment_of_forall ?_⟩
  rw [String.toList_append, List.forall_mem_append]
  exact ⟨fun c hc => isPlain_of_isValueChar (isValueChar_of_isNameChar (forall_isNameChar h c hc)),
    by decide⟩

/-- A registered name can be called by a value, in which case it is one by itself, and by a sheet
exactly if it is neither a lone hyphen nor one with a digit behind it. No other call of such a name
is ever read. -/
theorem Signature.callable_iff {source : String} {sig : Signature}
    (h : Signature.parse source = .ok sig) :
    (Expr.parse (sig.name ++ "()") = .ok (.call sig.name [] ⟨1, 1⟩) ↔ sig.Callable) ∧
    ((∃ text e, Expr.parse text = .ok e ∧ sig.name ∈ e.callNames) ↔ sig.Callable) ∧
    ((∃ text sheet, Sheet.parse text = .ok sheet ∧ sig.name ∈ sheet.called) ↔ sig.Callable) := by
  have hname : Name sig.name.toList := (parse_ok.1 h).written.names.1
  have hvalue : ∀ text e, Expr.parse text = .ok e → sig.name ∈ e.callNames → sig.Callable :=
    fun text e he hmem =>
      (isIdentifier_iff_callable hname).1 ((Expr.WellFormed.of_parse he).isIdentifier _ hmem)
  have hcall : sig.Callable → Expr.parse (sig.name ++ "()") = .ok (.call sig.name [] ⟨1, 1⟩) :=
    fun hcallable => parse_call ((isIdentifier_iff_callable hname).2 hcallable)
  have hmem : sig.name ∈ (Expr.call sig.name [] (⟨1, 1⟩ : Location)).callNames := by
    simp [Expr.callNames]
  refine ⟨⟨fun he => hvalue _ _ he hmem, hcall⟩,
    ⟨?_, fun hc => ⟨_, _, hcall hc, hmem⟩⟩, ?_, ?_⟩
  · rintro ⟨text, e, he, hmem⟩
    exact hvalue text e he hmem
  · rintro ⟨text, sheet, hsheet, hmem⟩
    exact (isIdentifier_iff_callable hname).1 (Sheet.isIdentifier_of_called hsheet _ hmem)
  · intro hc
    have hwritable := writableValue_call ((isIdentifier_iff_callable hname).2 hc)
    obtain ⟨sheet, e, hsheet, he, hcalled⟩ := Sheet.called_of_value hwritable
    rw [hcall hc] at he
    cases he
    exact ⟨_, sheet, hsheet, hcalled ▸ hmem⟩

/-- A name that is a value where it is not called, and one that is a number there. -/
theorem Signature.callable_null :
    Expr.parse "null()" = .ok (.call "null" [] ⟨1, 1⟩) ∧
    (∃ text sheet, Sheet.parse text = .ok sheet ∧ "null" ∈ sheet.called) ∧
    ¬ ∃ text sheet, Sheet.parse text = .ok sheet ∧ "-5" ∈ sheet.called := by
  have hnull : Signature.parse "null()" = .ok ⟨"null", []⟩ := by decide +kernel
  have hminus : Signature.parse "-5()" = .ok ⟨"-5", []⟩ := by decide +kernel
  have hcallable : Signature.Callable ⟨"null", []⟩ := by
    refine ⟨by decide, ?_⟩
    rintro c cs ⟨⟩
  refine ⟨(Signature.callable_iff hnull).1.2 hcallable,
    (Signature.callable_iff hnull).2.2.2 hcallable, fun hcalled => ?_⟩
  exact ((Signature.callable_iff hminus).2.2.1 hcalled).2 '5' [] rfl (by decide)

end HostSheet

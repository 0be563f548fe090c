import HostSheet.Proofs.Call.Packing
import HostSheet.Proofs.Conversion.Failing
import HostSheet.Proofs.Conversion.Typing
import Mathlib.Data.List.Zip

/-!
# Rows of arguments

A function can take its arguments one by one under a row of shapes, or the packed value under the
row as a whole. Both end alike, but for the place that only the second names, unless the one
argument is a list, which the packed value cannot tell from several arguments, or a row of another
length meets one argument, which the packed value takes for a value of the wrong kind.
-/

namespace HostSheet

-- ---------------------------------------------------------------------------
-- Ending alike
-- ---------------------------------------------------------------------------

/-- Two ways to take arguments under a row of shapes end with the same, or both fail: in the same
way if there are too few or too many arguments, else with the failure of the first argument that
fails, which the second way marks with its place. -/
inductive EndAlike (args : List Value) (shapes : List Shape) {α β : Type} (same : α → β) :
    Except DecodeError α → Except DecodeError β → Prop
  | ok (a : α) : EndAlike args shapes same (.ok a) (.ok (same a))
  | count : shapes.length ≠ args.length →
      EndAlike args shapes same (.error (.wrongCount shapes.length args.length))
        (.error (.wrongCount shapes.length args.length))
  | argument {i : Nat} {arg : Value} {shape : Shape} {cause : DecodeError} :
      shapes.length = args.length →
      FirstAt (fun p => Fails (decode p.2 p.1)) (args.zip shapes) i (arg, shape) →
      decode shape arg = .error cause →
      EndAlike args shapes same (.error cause) (.error (.element i cause))

section
variable {args : List Value} {shapes : List Shape} {α β γ : Type} {same : α → β}
  {x : Except DecodeError α} {y : Except DecodeError β}

theorem EndAlike.bind {g : α → Except DecodeError γ} {g' : β → Except DecodeError γ}
    (h : EndAlike args shapes same x y)
    (hg : ∀ a, x = .ok a → ∃ c, g a = .ok c ∧ g' (same a) = .ok c) :
    EndAlike args shapes id (x >>= g) (y >>= g') := by
  cases h with
  | ok a =>
    obtain ⟨c, hc, hc'⟩ := hg a rfl
    rw [ok_bind, ok_bind, hc, hc']
    exact .ok c
  | count hlength => exact .count hlength
  | argument hlength hfirst hcause => exact .argument hlength hfirst hcause

end

-- ---------------------------------------------------------------------------
-- The packed value as a row
-- ---------------------------------------------------------------------------

/-- The arguments are no single list, and a single argument is met by a single shape. -/
def Arguments.MeetRow (args : Arguments) (shapes : List Shape) : Prop :=
  args.arity ≠ 1 ∨ (∃ value, args.values = [value] ∧ value.kind ≠ .list) ∧ shapes.length = 1

theorem Arguments.MeetRow.rowItems_pack {args : Arguments} {shapes : List Shape}
    (h : args.MeetRow shapes) : rowItems shapes.length args.pack = .ok args.values := by
  obtain harity | ⟨⟨value, hvalues, hkind⟩, hone⟩ := h
  · rw [Arguments.pack_of_length_ne_one harity]
    rfl
  · rw [Arguments.pack, hvalues, hone]
    cases value with
    | list => exact absurd rfl hkind
    | _ => rfl

theorem forall₂_zip_swap {α β γ : Type} {R : α × β → γ → Prop} {as : List α} {bs : List β}
    {cs : List γ} :
    List.Forall₂ (fun p c => R p.swap c) (bs.zip as) cs ↔ List.Forall₂ R (as.zip bs) cs := by
  rw [← List.zip_swap as bs, List.forall₂_map_left_iff]
  rfl

namespace Invocation

section
variable {call : Invocation} {shapes : List Shape} {e : DecodeError}

theorem decodeArgs_error :
    call.decodeArgs shapes = .error e ↔
      shapes.length ≠ call.arity ∧ e = .wrongCount shapes.length call.arity ∨
      shapes.length = call.arity ∧ ∃ i p,
        FirstAt (fun p => Fails (HostSheet.decode p.2 p.1)) (call.args.zip shapes) i p ∧
          HostSheet.decode p.2 p.1 = .error e := by
  unfold decodeArgs
  split
  · rename_i h
    simp [h, eq_comm]
  · rename_i h
    rw [mapM_error]
    simp [not_not.1 h]

end

section
variable {function : String} {session : SessionInfo} {args : Arguments} {shapes : List Shape}

theorem decodeArgs_ok_iff (h : args.MeetRow shapes) {values : List HostValue} :
    let call := ofArguments function session args
    call.decodeArgs shapes = .ok values ↔
      call.decode (.sequence shapes) = .ok (.sequence values) := by
  intro call
  have hargs : call.args = args.values := args_ofArguments
  have hrow : rowItems shapes.length call.raw = .ok args.values := h.rowItems_pack
  rw [decodeArgs_ok, Invocation.decode, decode_sequence_ok, hargs, hrow]
  constructor
  · rintro ⟨hlength, hvalues⟩
    exact ⟨_, rfl, hlength.symm, values, forall₂_zip_swap.1 hvalues, rfl⟩
  · rintro ⟨items, ⟨⟩, hlength, values', hvalues, ⟨⟩⟩
    exact ⟨hlength.symm, forall₂_zip_swap.2 hvalues⟩

theorem endAlike_decodeArgs (h : args.MeetRow shapes) :
    let call := ofArguments function session args
    EndAlike args.values shapes HostValue.sequence (call.decodeArgs shapes)
      (call.decode (.sequence shapes)) := by
  intro call
  have hrow : rowItems shapes.length call.raw = .ok args.values := h.rowItems_pack
  cases hend : call.decodeArgs shapes with
  | ok values =>
    rw [(decodeArgs_ok_iff h).1 hend]
    exact .ok values
  | error e =>
    obtain ⟨hlength, rfl⟩ | ⟨hlength, i, ⟨arg, shape⟩, hfirst, hcause⟩ := decodeArgs_error.1 hend
    · have hpacked :
          call.decode (.sequence shapes) = .error (.wrongCount shapes.length call.arity) :=
        decode_sequence_error.2 (.inr ⟨_, hrow, .inl ⟨hlength.symm, rfl⟩⟩)
      rw [hpacked]
      exact .count hlength
    · rw [args_ofArguments] at hfirst
      have hmarked := markedFailure_zero.2 ⟨i, _, hfirst, e, hcause, rfl⟩
      have hpacked : call.decode (.sequence shapes) = .error (.element i e) :=
        decode_sequence_error.2 (.inr ⟨_, hrow, .inr ⟨hlength.symm, hmarked⟩⟩)
      rw [hpacked]
      exact .argument hlength hfirst hcause

theorem exists_ofHost_of_decode {t : HostType} {value : Value} {decoded : HostValue}
    (h : HostSheet.decode t.shape value = .ok decoded) : ∃ x, t.ofHost decoded = .ok x := by
  obtain ⟨x, rfl⟩ := t.exists_toHost_of_conforms (conforms_decode h)
  exact ⟨x, t.ofHost_toHost x⟩

theorem endAlike_unmarshal {ts : List HostType} (h : args.MeetRow (HostType.shapes ts)) :
    let call := ofArguments function session args
    EndAlike args.values (HostType.shapes ts) id (call.unmarshal (.tuple ts))
      ((HostType.tuple ts).unmarshal call.raw) := by
  intro call
  refine (endAlike_decodeArgs h).bind fun values hvalues => ?_
  obtain ⟨x, hx⟩ := exists_ofHost_of_decode (t := .tuple ts) ((decodeArgs_ok_iff h).1 hvalues)
  exact ⟨x, hx, hx⟩

end

/-- Taking the arguments one by one and taking the packed value end alike under a row of shapes, and
so do the two ways to receive a tuple. The mark that only the second way makes stands in front of
the message and leaves the sort of the failure as it is. -/
theorem rows_end_alike (function : String) (session : SessionInfo) {args : Arguments}
    {shapes : List Shape} (h : args.MeetRow shapes) :
    let call := ofArguments function session args
    EndAlike args.values shapes HostValue.sequence (call.decodeArgs shapes)
      (call.decode (.sequence shapes)) ∧
    (∀ values, call.decodeArgs shapes = .ok values ↔
      call.decode (.sequence shapes) = .ok (.sequence values)) ∧
    (∀ ts, HostType.shapes ts = shapes →
      EndAlike args.values shapes id (call.unmarshal (.tuple ts))
        ((HostType.tuple ts).unmarshal call.raw)) ∧
    ∀ i cause, (DecodeError.element i cause).category = cause.category ∧
      (DecodeError.element i cause).message =
        "element " ++ toString i ++ ": " ++ cause.message := by
  intro call
  refine ⟨endAlike_decodeArgs h, fun values => decodeArgs_ok_iff h, ?_, fun _ _ => ⟨rfl, rfl⟩⟩
  rintro ts rfl
  exact endAlike_unmarshal h

/-- Two arguments, the second being a list with a second item of the wrong kind. -/
theorem rows_end_alike_second :
    let args : Arguments := ⟨[.list [.null] .comma, .list [.bool true, .null] .space]⟩
    let call := ofArguments "f" ⟨1, "stdin"⟩ args
    let ts : List HostType := [.any, .list .bool]
    let shapes := HostType.shapes ts
    let cause : DecodeError := .element 1 (.mismatch "bool" "null")
    args.MeetRow shapes ∧
      (call.decodeArgs shapes = .error cause ∧
        call.decode (.sequence shapes) = .error (.element 1 cause)) ∧
      EndAlike args.values shapes HostValue.sequence (call.decodeArgs shapes)
        (call.decode (.sequence shapes)) ∧
      EndAlike args.values shapes id (call.unmarshal (.tuple ts))
        ((HostType.tuple ts).unmarshal call.raw) := by
  intro args call ts shapes cause
  have h : args.MeetRow shapes := .inl (by decide)
  obtain ⟨hrow, -, htuple, -⟩ := rows_end_alike "f" ⟨1, "stdin"⟩ h
  exact ⟨h, ⟨rfl, rfl⟩, hrow, htuple ts rfl⟩

/-- A single list is one argument for the first way and two items for the second. -/
example :
    let call := ofArguments "f" ⟨1, "stdin"⟩ ⟨[.list [.null, .null] .comma]⟩
    call.decodeArgs [.any] = .ok [.sequence [.null, .null]] ∧
      call.decode (.sequence [.any]) = .error (.wrongCount 1 2) :=
  ⟨rfl, rfl⟩

end Invocation

end HostSheet

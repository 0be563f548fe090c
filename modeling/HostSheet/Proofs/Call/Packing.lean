import HostSheet.Call.Invocation
import HostSheet.Proofs.Conversion.RoundTrip

/-!
# Packed arguments

A function sees its arguments packed into one value, from which alone their number cannot be told: a
list may be one argument or several. Together with the number nothing is lost. The arguments are got
back one by one, a row of shapes and a tuple meet them one to one, and every other type meets a
single argument as it is.
-/

namespace HostSheet

-- ---------------------------------------------------------------------------
-- Packing
-- ---------------------------------------------------------------------------

theorem Arguments.pack_of_length_ne_one {args : Arguments} (h : args.arity ≠ 1) :
    args.pack = .list args.values .comma := by
  unfold Arguments.pack
  split
  · rename_i value hvalues
    rw [Arguments.arity, hvalues] at h
    exact absurd rfl h
  · rfl

/-- Unpacking a value is guessing: only a list that was the single argument is taken apart. -/
theorem Arguments.ofPacked_pack_iff {args : Arguments} :
    Arguments.ofPacked args.pack = args ↔
      ∀ items separator, args.values ≠ [.list items separator] := by
  constructor
  · rintro h items separator hvalues
    have items_eq : items = [.list items separator] := by
      have := congrArg Arguments.values h
      rwa [Arguments.pack, hvalues] at this
    have smaller := congrArg sizeOf items_eq
    simp at smaller
    omega
  · intro h
    by_cases harity : args.arity = 1
    · obtain ⟨value, hvalue⟩ := List.length_eq_one_iff.1 harity
      obtain ⟨values⟩ := args
      subst hvalue
      cases value with
      | list items separator => exact absurd rfl (h items separator)
      | _ => rfl
    · rw [pack_of_length_ne_one harity]
      rfl

namespace Invocation

section
variable {function : String} {session : SessionInfo} {args : Arguments}

@[simp] theorem args_ofArguments : (ofArguments function session args).args = args.values := by
  unfold Invocation.args
  split
  · rename_i h
    obtain ⟨value, hvalue⟩ := List.length_eq_one_iff.1 h
    simp [ofArguments, Arguments.pack, hvalue]
  · rename_i h
    rw [ofArguments, Arguments.pack_of_length_ne_one h]
    rfl

end

-- ---------------------------------------------------------------------------
-- Rows of shapes
-- ---------------------------------------------------------------------------

theorem forall₂_zip_iff_getElem {α β γ : Type} {R : α × β → γ → Prop} {as : List α} {bs : List β}
    {cs : List γ} (h : bs.length = as.length) :
    List.Forall₂ R (as.zip bs) cs ↔
      ∃ _ : cs.length = as.length, ∀ i (_ : i < as.length), R (as[i], bs[i]) cs[i] := by
  simp only [List.forall₂_iff_get, List.get_eq_getElem, List.getElem_zip, List.length_zip, h,
    Nat.min_self]
  constructor
  · rintro ⟨hlength, hR⟩
    exact ⟨hlength.symm, fun i hi => hR i hi (hlength ▸ hi)⟩
  · rintro ⟨hlength, hR⟩
    exact ⟨hlength.symm, fun i hi _ => hR i hi⟩

section
variable {call : Invocation} {shapes : List Shape} {values : List HostValue}

theorem decodeArgs_ok :
    call.decodeArgs shapes = .ok values ↔ shapes.length = call.arity ∧
      List.Forall₂ (fun p value => HostSheet.decode p.2 p.1 = .ok value)
        (call.args.zip shapes) values := by
  unfold decodeArgs
  split
  · rename_i h
    simp [h]
  · rename_i h
    rw [mapM_ok, not_not.1 h]
    simp

theorem decodeArgs_of_wrongCount (h : shapes.length ≠ call.arity) :
    call.decodeArgs shapes = .error (.wrongCount shapes.length call.arity) :=
  if_pos h

end

end Invocation

-- ---------------------------------------------------------------------------
-- Types
-- ---------------------------------------------------------------------------

namespace HostType

/-- Each component is what one argument stands for under its type, in order, and no argument is left
over. -/
inductive Received : (ts : List HostType) → List Value → Components ts → Prop
  | nil : Received [] [] ()
  | cons {t ts arg args} {x : t.Carrier} {xs : Components ts} :
      t.unmarshal arg = .ok x → Received ts args xs → Received (t :: ts) (arg :: args) (x, xs)

theorem Received.length_eq {ts : List HostType} {args : List Value} {xs : Components ts}
    (h : Received ts args xs) : ts.length = args.length := by
  induction h with
  | nil => rfl
  | cons _ _ ih => exact congrArg (· + 1) ih

theorem received_cons_iff {t : HostType} {ts : List HostType} {arg : Value} {args : List Value}
    {x : t.Carrier} {xs : Components ts} :
    Received (t :: ts) (arg :: args) (x, xs) ↔
      t.unmarshal arg = .ok x ∧ Received ts args xs := by
  constructor
  · rintro (_ | ⟨hx, hxs⟩)
    exact ⟨hx, hxs⟩
  · rintro ⟨hx, hxs⟩
    exact .cons hx hxs

theorem unmarshal_ok {t : HostType} {value : Value} {x : t.Carrier} :
    t.unmarshal value = .ok x ↔ ∃ decoded, decode t.shape value = .ok decoded ∧
      t.ofHost decoded = .ok x :=
  bind_ok

/-- All arguments are decoded before the first one is converted; the outcome is the same as if each
was received on its own. -/
theorem received_iff {ts : List HostType} {args : List Value} {xs : Components ts}
    (hlength : ts.length = args.length) :
    Received ts args xs ↔ ∃ values,
      List.Forall₂ (fun p value => decode p.2 p.1 = .ok value) (args.zip (shapes ts)) values ∧
        componentsOfHost ts values = .ok xs := by
  induction ts generalizing args with
  | nil =>
    obtain rfl := List.length_eq_zero_iff.1 hlength.symm
    cases xs
    exact iff_of_true .nil ⟨[], .nil, rfl⟩
  | cons t ts ih =>
    cases args with
    | nil => cases hlength
    | cons arg args =>
      obtain ⟨x, xs⟩ := xs
      rw [received_cons_iff, unmarshal_ok, ih (Nat.succ.inj hlength), shapes, List.zip_cons_cons]
      constructor
      · rintro ⟨⟨value, hvalue, hx⟩, values, hvalues, hxs⟩
        exact ⟨value :: values, .cons hvalue hvalues, componentsOfHost_cons_ok.2 ⟨hx, hxs⟩⟩
      · rintro ⟨_, _ | ⟨hvalue, hvalues⟩, h⟩
        obtain ⟨hx, hxs⟩ := componentsOfHost_cons_ok.1 h
        exact ⟨⟨_, hvalue, hx⟩, _, hvalues, hxs⟩

end HostType

namespace Invocation

section
variable {call : Invocation} {ts : List HostType} {xs : HostType.Components ts}

theorem unmarshal_tuple_ok :
    call.unmarshal (.tuple ts) = .ok xs ↔ ∃ values,
      call.decodeArgs (HostType.shapes ts) = .ok values ∧
        (HostType.tuple ts).ofHost (.sequence values) = .ok xs :=
  bind_ok

theorem unmarshal_tuple_iff (hargs : call.args.length = call.arity) :
    call.unmarshal (.tuple ts) = .ok xs ↔ HostType.Received ts call.args xs := by
  refine unmarshal_tuple_ok.trans ?_
  have count {values : List HostValue} (hlength : ts.length = call.args.length)
      (hvalues : List.Forall₂ (fun p value => HostSheet.decode p.2 p.1 = .ok value)
        (call.args.zip (HostType.shapes ts)) values) : values.length = ts.length := by
    rw [← hvalues.length_eq, List.length_zip, HostType.length_shapes, hlength, Nat.min_self]
  simp only [decodeArgs_ok, HostType.length_shapes, ← hargs]
  constructor
  · rintro ⟨values, ⟨hlength, hvalues⟩, hxs⟩
    rw [HostType.ofHost_tuple (count hlength hvalues)] at hxs
    exact (HostType.received_iff hlength).2 ⟨values, hvalues, hxs⟩
  · intro h
    obtain ⟨values, hvalues, hxs⟩ := (HostType.received_iff h.length_eq).1 h
    exact ⟨values, ⟨h.length_eq, hvalues⟩,
      (HostType.ofHost_tuple (count h.length_eq hvalues)).trans hxs⟩

theorem unmarshal_tuple_of_wrongCount (h : ts.length ≠ call.arity) :
    call.unmarshal (.tuple ts) = .error (.wrongCount ts.length call.arity) := by
  have refused : call.decodeArgs (HostType.shapes ts) =
      .error (.wrongCount ts.length call.arity) := by
    rw [decodeArgs_of_wrongCount (by rwa [HostType.length_shapes]), HostType.length_shapes]
  exact congrArg (· >>= fun values => (HostType.tuple ts).ofHost (.sequence values)) refused

end

theorem unmarshal_of_not_tuple {call : Invocation} {t : HostType} (h : ∀ ts, t ≠ .tuple ts) :
    call.unmarshal t =
      if call.arity = 1 then t.unmarshal call.raw else .error (.wrongCount 1 call.arity) := by
  have body : call.unmarshal t = (do
      if call.arity ≠ 1 then
        throw (.wrongCount 1 call.arity)
      t.ofHost (← HostSheet.decode t.shape call.raw)) := by
    cases t with
    | tuple ts => exact absurd rfl (h ts)
    | _ => rfl
  rw [body]
  by_cases harity : call.arity = 1
  · rw [if_neg (not_not.2 harity), if_pos harity]
    rfl
  · rw [if_pos harity, if_neg harity]
    rfl

/-- Packing loses nothing of the arguments of a call. They are got back one by one, shapes and the
components of a tuple meet them one to one, and a type that is no tuple takes a single argument as
it is, whatever it is. The packed value alone tells them unless it is the one list that was
given. -/
theorem arguments_recovered (function : String) (session : SessionInfo) (args : List Value) :
    let call := ofArguments function session ⟨args⟩
    (call.arity = args.length ∧ call.args = args) ∧
    (∀ shapes values, call.decodeArgs shapes = .ok values ↔
      ∃ (_ : shapes.length = args.length) (_ : values.length = args.length),
        ∀ i (_ : i < args.length), HostSheet.decode shapes[i] args[i] = .ok values[i]) ∧
    (∀ ts xs, call.unmarshal (.tuple ts) = .ok xs ↔ HostType.Received ts args xs) ∧
    (∀ ts, ts.length ≠ args.length →
      call.unmarshal (.tuple ts) = .error (.wrongCount ts.length args.length)) ∧
    (∀ t, (∀ ts, t ≠ .tuple ts) → call.unmarshal t =
      if _ : args.length = 1 then t.unmarshal args[0] else .error (.wrongCount 1 args.length)) ∧
    (Arguments.ofPacked (Arguments.pack ⟨args⟩) = ⟨args⟩ ↔
      ∀ items separator, args ≠ [.list items separator]) := by
  intro call
  have hargs : call.args = args := args_ofArguments
  have harity : call.arity = args.length := rfl
  refine ⟨⟨harity, hargs⟩, fun shapes values => ?_, fun ts xs => ?_, fun ts h => ?_,
    fun t ht => ?_, Arguments.ofPacked_pack_iff⟩
  · rw [decodeArgs_ok, hargs, harity]
    constructor
    · rintro ⟨hlength, hvalues⟩
      exact ⟨hlength, (forall₂_zip_iff_getElem hlength).1 hvalues⟩
    · rintro ⟨hlength, hvalues⟩
      exact ⟨hlength, (forall₂_zip_iff_getElem hlength).2 hvalues⟩
  · rw [← hargs]
    exact unmarshal_tuple_iff (congrArg List.length hargs)
  · exact unmarshal_tuple_of_wrongCount h
  · rw [unmarshal_of_not_tuple ht, harity]
    split
    · rename_i hone
      obtain ⟨arg, rfl⟩ := List.length_eq_one_iff.1 hone
      rfl
    · rfl

/-- A list of two given as the only argument is no pair of arguments, and it is a list. -/
theorem arguments_recovered_list :
    let args : List Value := [.list [.bool true, .bool false] .space]
    let call := ofArguments "f" ⟨1, "stdin"⟩ ⟨args⟩
    ([HostType.bool, .bool].length ≠ args.length ∧
      call.unmarshal (.tuple [.bool, .bool]) = .error (.wrongCount 2 1)) ∧
    (∀ ts, HostType.list .bool ≠ .tuple ts) ∧
      call.unmarshal (.list .bool) = HostType.unmarshal (.list .bool) args[0] := by
  intro args call
  obtain ⟨-, -, -, wrongCount, other, -⟩ := arguments_recovered "f" ⟨1, "stdin"⟩ args
  exact ⟨⟨by decide, wrongCount [.bool, .bool] (by decide)⟩, by simp, other (.list .bool) (by simp)⟩

end Invocation

end HostSheet

import HostSheet.Proofs.Result
import HostSheet.Proofs.Session.Independence

/-!
# The warnings of a session

What a session shows as its warnings was raised by its last compilation: the first of the warnings
that functions answered with, in the order of the calls. Functions that are bound or called directly
leave the warnings as they are.
-/

namespace HostSheet

variable {σ : Type}

-- ---------------------------------------------------------------------------
-- Collecting
-- ---------------------------------------------------------------------------

theorem DiagnosticCollector.kept_addAll (c : DiagnosticCollector) (ds : List Diagnostic) :
    (c.addAll ds).kept = c.kept ++ ds.take (c.limit - c.kept.length) := by
  induction ds generalizing c with
  | nil => simp [addAll]
  | cons d ds ih =>
    have hall : c.addAll (d :: ds) = (c.add d).2.addAll ds := rfl
    rw [hall, ih]
    by_cases hroom : c.kept.length < c.limit
    · have hmore : c.limit - c.kept.length = c.limit - (c.kept.length + 1) + 1 := by omega
      simp [add, hroom, hmore]
    · have hfull : c.limit - c.kept.length = 0 := by omega
      simp [add, hroom, hfull]

namespace Session

-- ---------------------------------------------------------------------------
-- Steps
-- ---------------------------------------------------------------------------

inductive Step (σ : Type) where
  | operate (op : Registry.Operation σ)
  | compile (source : String)

def step (s : Session σ) : Step σ → Session σ
  | .operate op => { s with registry := (s.registry.perform op).2 }
  | .compile source => (s.compile source).2

def run (s : Session σ) (steps : List (Step σ)) : Session σ :=
  steps.foldl step s

theorem run_append (s : Session σ) (first second : List (Step σ)) :
    s.run (first ++ second) = (s.run first).run second :=
  List.foldl_append

theorem Reached.step {s : Session σ} (h : s.Reached) (step : Step σ) : (s.step step).Reached := by
  cases step with
  | operate op => exact h.registry _
  | compile source => exact h.compile source

theorem Reached.run {s : Session σ} (h : s.Reached) (steps : List (Step σ)) :
    (s.run steps).Reached := by
  induction steps generalizing s with
  | nil => exact h
  | cons first steps ih => exact ih (h.step first)

theorem warnings_run_operate (s : Session σ) (ops : List (Registry.Operation σ)) :
    (s.run (ops.map .operate)).warnings = s.warnings := by
  induction ops generalizing s with
  | nil => rfl
  | cons op ops ih => exact ih (s.step (.operate op))

-- ---------------------------------------------------------------------------
-- The last compilation
-- ---------------------------------------------------------------------------

theorem Reached.kept_compile {s : Session σ} (h : s.Reached) (source : String) :
    List.Forall₂ (fun w => s.Reports source .warning w.message w.place)
      ((s.evaluate source).2.warnings.take 100) (s.compile source).2.warnings.kept := by
  have hlimit : s.warnings.clear.limit = 100 := h.limit
  have hempty : s.warnings.clear.kept = [] := rfl
  rw [compile_left, DiagnosticCollector.kept_addAll, hlimit, hempty, List.nil_append,
    List.length_nil, Nat.sub_zero, ← List.map_take, List.forall₂_map_right_iff, List.forall₂_same]
  exact fun w _ => reports_iff.2 rfl

/-- Whatever was bound, called and compiled before, and whatever is bound and called afterwards, the
warnings of a session are those of its last compilation: the first hundred that its calls answered
with, in the order of the calls, each with its message and the place of its call. There are none
behind a source that does not parse, and none before the first compilation. -/
theorem run_warnings (id : Nat) (config : Config) (host : σ) (before : List (Step σ))
    (after : List (Registry.Operation σ)) :
    let new := Session.ofConfig id config host
    let s := new.run before
    (new.run (after.map .operate)).warnings.kept = [] ∧
    (new.run (before ++ after.map .operate)).warnings = s.warnings ∧
    ∀ source,
      let left := new.run (before ++ .compile source :: after.map .operate)
      (∀ e, Sheet.parse source = .error e → left.warnings.kept = []) ∧
      (∀ sheet, Sheet.parse source = .ok sheet → ∃ events,
        s.setting.IsCourse s.registry (Sheet.nodes sheet) events
          (s.compile source).2.registry ∧
        List.Forall₂ (fun w => s.Reports source .warning w.message w.place)
          ((events.filterMap Event.warning?).take 100) left.warnings.kept) := by
  intro new s
  have hreached : s.Reached := (Reached.new id config host).run before
  have hrun (steps : List (Step σ)) : new.run (before ++ steps) = s.run steps :=
    new.run_append before steps
  refine ⟨congrArg _ (new.warnings_run_operate after), ?_, fun source => ?_⟩
  · rw [hrun, warnings_run_operate]
  have hleft : (s.run (.compile source :: after.map .operate)).warnings =
      (s.compile source).2.warnings := (s.compile source).2.warnings_run_operate after
  have hkept := hreached.kept_compile source
  simp only [hrun, hleft]
  refine ⟨fun e h => ?_, fun sheet h => ⟨(s.course sheet).1, ?_, ?_⟩⟩
  · rw [evaluate_of_unreadable h] at hkept
    exact List.forall₂_nil_left_iff.1 hkept
  · rw [compile_left, evaluate_eq h]
    exact s.setting.isCourse_course _ _
  · rwa [evaluate_eq h] at hkept

/-- The first compilation warns and fails, the second warns twice, and the call behind it is not a
part of a compilation. -/
theorem run_warnings_last :
    let bind : Registry.Operation Unit := .register "f($x)" fun _ => CallM.warn "w"
    let call : Registry.Operation Unit := .dispatch ⟨0, "s"⟩ "f" ⟨[.null]⟩
    let first := [.operate bind, .compile "a\x7bb:f(1) f()\x7d"]
    let new := Session.ofConfig 0 {} ()
    let s := new.run first
    let source := "a\x7bb:c;\nd:f(f(1))\x7d"
    let left := new.run (first ++ [.compile source, .operate call])
    s.warnings.kept.length = 1 ∧
    ∃ sheet events, Sheet.parse source = .ok sheet ∧
      s.setting.IsCourse s.registry (Sheet.nodes sheet) events (s.compile source).2.registry ∧
      List.Forall₂ (fun w => s.Reports source .warning w.message w.place)
        ((events.filterMap Event.warning?).take 100) left.warnings.kept ∧
      left.warnings.kept.map (fun d => (d.severity, d.message, d.line, d.column)) =
        [(.warning, "w", 2, 5), (.warning, "w", 2, 3)] := by
  intro bind call first new s source left
  obtain ⟨sheet, hparse⟩ : ∃ sheet, Sheet.parse source = .ok sheet := isOk_iff.1 (by decide +kernel)
  obtain ⟨-, -, hcompile⟩ := run_warnings 0 {} () first [call]
  obtain ⟨events, hcourse, hkept⟩ := (hcompile source).2 sheet hparse
  exact ⟨by decide +kernel, sheet, events, hparse, hcourse, hkept, by decide +kernel⟩

end Session

end HostSheet

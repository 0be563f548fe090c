import HostSheet.Proofs.Result
import HostSheet.Proofs.Session.Failing

/-!
# What a compilation depends on

Two sessions compile a source alike if they bind the names that it calls alike. The functions that
it does not call, the calls and compilations before it and the warnings they raised have no say.
-/

namespace HostSheet

variable {σ τ : Type}

-- ---------------------------------------------------------------------------
-- Bindings
-- ---------------------------------------------------------------------------

/-- The function answers every call in this way, in whatever state it finds its host. -/
def Callback.Answers (callback : Callback σ)
    (answer : Invocation → Except String Unit × Reply) : Prop :=
  ∀ call host, ∃ host',
    (callback call).run.run ({}, host) = ((answer call).1, (answer call).2, host')

/-- A name is bound in neither registry, or in both to functions with the same signature that answer
alike. -/
inductive Registry.BindAlike (r : Registry σ) (r' : Registry τ) (name : String) : Prop
  | unbound : r.find? name = none → r'.find? name = none → BindAlike r r' name
  | bound {entry entry' answer} : r.find? name = some entry → r'.find? name = some entry' →
      entry.signature = entry'.signature → entry.callback.Answers answer →
      entry'.callback.Answers answer → BindAlike r r' name

namespace Registry

namespace BindAlike

variable {r : Registry σ} {r' : Registry τ} {name : String}

theorem contains_eq (h : r.BindAlike r' name) : r.contains name = r'.contains name := by
  cases h with
  | unbound hr hr' => rw [contains, contains, hr, hr']; rfl
  | bound hr hr' => rw [contains, contains, hr, hr']; rfl

theorem outcome_eq (h : r.BindAlike r' name) (session : SessionInfo) (args : Arguments) :
    (r.dispatch session name args).1 = (r'.dispatch session name args).1 := by
  cases h with
  | unbound hr hr' => rw [dispatch_of_unbound hr, dispatch_of_unbound hr']
  | @bound entry entry' answer hr hr' hsignature hanswers hanswers' =>
    by_cases harity : entry.signature.arity = args.arity
    · obtain ⟨host, hrun⟩ := hanswers (.ofArguments name session args) r.host
      obtain ⟨host', hrun'⟩ := hanswers' (.ofArguments name session args) r'.host
      rw [dispatch_of_admitted hr harity hrun,
        dispatch_of_admitted hr' (hsignature ▸ harity) hrun']
    · rw [dispatch_of_wrongCount hr harity, dispatch_of_wrongCount hr' (hsignature ▸ harity),
        hsignature]

theorem symm (h : r.BindAlike r' name) : r'.BindAlike r name := by
  cases h with
  | unbound hr hr' => exact .unbound hr' hr
  | bound hr hr' hsignature hanswers hanswers' =>
    exact .bound hr' hr hsignature.symm hanswers' hanswers

theorem dispatch (h : r.BindAlike r' name) (session : SessionInfo) (called : String)
    (args : Arguments) : r.BindAlike (r'.dispatch session called args).2 name := by
  have hbindings := (r'.bindings_dispatch session called args).symm
  cases h with
  | unbound hr hr' => exact .unbound hr (find?_eq_none_of_bindings hbindings hr')
  | bound hr hr' hsignature hanswers hanswers' =>
    obtain ⟨entry, hentry, hsame, hcallback⟩ := find?_of_bindings hbindings hr'
    exact .bound hr hentry (hsignature.trans hsame.symm) hanswers (hcallback ▸ hanswers')

end BindAlike

end Registry

-- ---------------------------------------------------------------------------
-- Courses
-- ---------------------------------------------------------------------------

def Node.called? {p : Type} : Node p → Option String
  | .call name _ _ => some name
  | .declaration _ => none

namespace Setting

variable {setting : Setting} {r : Registry σ} {r' : Registry τ}

theorem meet_alike (setting : Setting) {node : Node Location}
    (h : ∀ name ∈ node.called?, r.BindAlike r' name) (past : List Event) :
    (setting.meet r past node).1 = (setting.meet r' past node).1 ∧
      ∀ name, r.BindAlike r' name →
        (setting.meet r past node).2.BindAlike (setting.meet r' past node).2 name := by
  cases node with
  | declaration d => exact ⟨rfl, fun _ => id⟩
  | call called args place =>
    have halike := h called rfl
    simp only [meet, ← halike.contains_eq]
    split
    · exact ⟨by rw [halike.outcome_eq], fun name hname =>
        ((hname.dispatch _ _ _).symm.dispatch _ _ _).symm⟩
    · exact ⟨rfl, fun _ => id⟩

theorem course_alike {nodes : List (Node Location)}
    (h : ∀ name ∈ nodes.filterMap Node.called?, r.BindAlike r' name) (past : List Event) :
    (setting.course r past nodes).1 = (setting.course r' past nodes).1 := by
  rw [← List.forall₂_eq_eq_eq]
  refine course_simulates (E := Eq) (I := fun r r' past past' nodes => past = past' ∧
    ∀ name ∈ nodes.filterMap Node.called?, r.BindAlike r' name) ?_ (fun _ _ h => h ▸ rfl) ⟨rfl, h⟩
  rintro r r' past _ node nodes ⟨rfl, h⟩
  have hnode : ∀ name ∈ node.called?, r.BindAlike r' name := fun name hname =>
    h name (List.mem_filterMap.2 ⟨node, List.mem_cons_self, hname⟩)
  obtain ⟨hevent, hkept⟩ := setting.meet_alike hnode past
  refine ⟨hevent, congrArg (past ++ [·]) hevent, fun name hname => ?_⟩
  obtain ⟨other, hother, hcalled⟩ := List.mem_filterMap.1 hname
  have hlater : other ∈ node :: nodes := List.mem_cons_of_mem _ hother
  exact hkept name (h name (List.mem_filterMap.2 ⟨other, hlater, hcalled⟩))

end Setting

-- ---------------------------------------------------------------------------
-- Compilations
-- ---------------------------------------------------------------------------

def Sheet.called {p : Type} (sheet : Sheet p) : List String :=
  (Sheet.nodes sheet).filterMap Node.called?

theorem DiagnosticCollector.limit_addAll (c : DiagnosticCollector) (ds : List Diagnostic) :
    (c.addAll ds).limit = c.limit := by
  induction ds generalizing c with
  | nil => rfl
  | cons d ds ih =>
    have hadd : (c.add d).2.limit = c.limit := by
      rw [add]
      split <;> rfl
    exact (ih _).trans hadd

namespace Session

/-- A session as it can be: it was new once, and since then its registry was changed in any way, and
sources were compiled. -/
inductive Reached : Session σ → Prop
  | new (id : Nat) (config : Config) (host : σ) : Reached (.ofConfig id config host)
  | registry {s : Session σ} (r : Registry σ) : s.Reached → Reached { s with registry := r }
  | compile {s : Session σ} (source : String) : s.Reached → Reached (s.compile source).2

theorem compile_left (s : Session σ) (source : String) :
    (s.compile source).2 =
      { s with
        registry := (s.evaluate source).2.registry
        warnings := s.warnings.clear.addAll ((s.evaluate source).2.warnings.map fun w =>
          s.report source .warning w.message w.place) } := by
  rw [compile]
  rcases s.evaluate source with ⟨_ | _, _⟩ <;> rfl

theorem Reached.limit {s : Session σ} (h : s.Reached) : s.warnings.limit = 100 := by
  induction h with
  | new => rfl
  | registry _ _ ih => exact ih
  | compile source _ ih =>
    rw [compile_left]
    exact (DiagnosticCollector.limit_addAll _ _).trans ih

/-- Sessions that bind the called names alike give a source the same result and raise the same
warnings. -/
theorem evaluate_alike {s : Session σ} {t : Session τ} (hsetting : s.setting = t.setting)
    {source : String}
    (hcalled : ∀ sheet, Sheet.parse source = .ok sheet →
      ∀ name ∈ Sheet.called sheet, s.registry.BindAlike t.registry name) :
    (s.evaluate source).1 = (t.evaluate source).1 ∧
      (s.evaluate source).2.warnings = (t.evaluate source).2.warnings := by
  cases hparse : Sheet.parse source with
  | error e =>
    rw [evaluate_of_unreadable hparse, evaluate_of_unreadable hparse]
    exact ⟨rfl, rfl⟩
  | ok sheet =>
    have hcourse : (s.course sheet).1 = (t.course sheet).1 := by
      rw [course, course, hsetting]
      exact Setting.course_alike (hcalled sheet hparse) []
    rw [evaluate_eq hparse, evaluate_eq hparse, hcourse]
    exact ⟨rfl, rfl⟩

/-- A compilation depends on the name and the configuration of the session and on how the names that
the source calls are bound. Whatever else is bound, whatever was called, counted and compiled
before, the result is the same, and so are the warnings. -/
theorem compile_alike {s : Session σ} {t : Session τ} (hs : s.Reached) (ht : t.Reached)
    (hinfo : s.info = t.info) (hconfig : s.config = t.config) {source : String}
    (hcalled : ∀ sheet, Sheet.parse source = .ok sheet →
      ∀ name ∈ Sheet.called sheet, s.registry.BindAlike t.registry name) :
    (s.compile source).1 = (t.compile source).1 ∧
      (s.compile source).2.warnings = (t.compile source).2.warnings := by
  have hsetting : s.setting = t.setting := by rw [setting, setting, hinfo, hconfig]
  obtain ⟨hresult, hwarnings⟩ := evaluate_alike hsetting hcalled
  have hclear : s.warnings.clear = t.warnings.clear := by
    rw [DiagnosticCollector.clear, DiagnosticCollector.clear, hs.limit, ht.limit]
  have hreport : s.report source = t.report source := by
    funext severity message place
    rw [report, report, hinfo, hconfig]
  constructor
  · rw [compile_result, compile_result, hresult, hconfig, hreport]
  · rw [compile_left, compile_left]
    simp only [hclear, hwarnings, hreport]

/-- A new session, and one whose functions count their calls, that binds one more of them, and in
which calls ran, one was refused, and warnings were raised. -/
theorem compile_alike_used :
    let warner : Callback Unit := fun _ => CallM.warn "w"
    let fresh : Session Unit :=
      { Session.ofConfig 0 {} () with registry := ((Registry.empty ()).register "f($x)" warner).2 }
    let counter : Callback Nat := fun _ => do CallM.modifyHost (· + 1); CallM.warn "w"
    let bound := (((Registry.empty 0).register "f($x)" counter).2.register "g()" counter).2
    let first : Session Nat := { Session.ofConfig 0 {} 0 with registry := bound }
    let used := (first.compile "c\x7bd:f(1) g() f()\x7d").2
    fresh.Reached ∧ used.Reached ∧ fresh.info = used.info ∧ fresh.config = used.config ∧
      used.registry.counts = ⟨2, 0, 1⟩ ∧ used.warnings.kept.length = 2 ∧
      (∃ sheet, Sheet.parse "a\x7bb:f(1) h(f(2))\x7d" = .ok sheet ∧
        Sheet.called sheet = ["f", "f", "h"]) ∧
      (fresh.compile "a\x7bb:f(1) h(f(2))\x7d").1 = (used.compile "a\x7bb:f(1) h(f(2))\x7d").1 ∧
      (fresh.compile "a\x7bb:f(1) h(f(2))\x7d").2.warnings =
        (used.compile "a\x7bb:f(1) h(f(2))\x7d").2.warnings := by
  intro warner fresh counter bound first used
  have hleft : used = { first with registry := used.registry, warnings := used.warnings } := by
    simp only [used, compile_left]
  have hcalled : (Sheet.parse "a\x7bb:f(1) h(f(2))\x7d").map Sheet.called =
      .ok ["f", "f", "h"] := by decide +kernel
  obtain ⟨sheet, hparse⟩ : ∃ sheet, Sheet.parse "a\x7bb:f(1) h(f(2))\x7d" = .ok sheet :=
    isOk_iff.1 (by decide +kernel)
  rw [hparse] at hcalled
  have hcalled : Sheet.called sheet = ["f", "f", "h"] := Except.ok.inj hcalled
  have hfresh : fresh.Reached := .registry _ (.new 0 {} ())
  have hused : used.Reached := .compile _ (.registry _ (.new 0 {} 0))
  have hbound : ∀ name ∈ ["f", "f", "h"], fresh.registry.BindAlike bound name := by
    intro name hname
    simp only [List.mem_cons, List.not_mem_nil, or_false, or_self_left] at hname
    obtain rfl | rfl := hname
    · have hwarner : warner.Answers fun _ => (.ok (), ⟨some (.warning "w"), none⟩) :=
        fun _ host => ⟨host, rfl⟩
      have hcounter : counter.Answers fun _ => (.ok (), ⟨some (.warning "w"), none⟩) :=
        fun _ host => ⟨host + 1, rfl⟩
      exact .bound rfl rfl rfl hwarner hcounter
    · exact .unbound rfl rfl
  have halike : ∀ sheet', Sheet.parse "a\x7bb:f(1) h(f(2))\x7d" = .ok sheet' →
      ∀ name ∈ Sheet.called sheet', fresh.registry.BindAlike used.registry name := by
    intro sheet' hparse' name hname
    obtain rfl := Except.ok.inj (hparse.symm.trans hparse')
    rw [hcalled] at hname
    simp only [used, compile_left]
    exact evaluate_keeps (P := (fresh.registry.BindAlike · name)) (hbound name hname)
      fun _ called args h => h.dispatch _ called args
  have hinfo : fresh.info = used.info := by rw [hleft]; rfl
  have hconfig : fresh.config = used.config := by rw [hleft]; rfl
  have hcompile := compile_alike hfresh hused hinfo hconfig halike
  exact ⟨hfresh, hused, hinfo, hconfig, by decide +kernel, by decide +kernel,
    ⟨sheet, hparse, hcalled⟩, hcompile.1, hcompile.2⟩

end Session

end HostSheet

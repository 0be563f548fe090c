import HostSheet.Config.Basic
import HostSheet.Diagnostic
import HostSheet.Session.Evaluation

/-!
# Sessions

A session compiles sheets with the functions that are registered in it. It keeps the warnings of its
last compilation. Sessions share nothing with each other.
-/

namespace HostSheet

structure Session (σ : Type) where
  info : SessionInfo
  registry : Registry σ
  config : Config
  /-- The warnings of the last compilation. -/
  warnings : DiagnosticCollector := {}

namespace Session

variable {σ : Type}

def ofConfig (id : Nat) (config : Config) (host : σ) : Session σ :=
  { info := ⟨id, config.compile.sourceName⟩, registry := .empty host, config }

def setting (s : Session σ) : Setting :=
  ⟨s.info, s.config.compile.outputStyle, s.config.compile.precision⟩

/-- The blocks of a source, and what its evaluation leaves behind. A source that does not parse is
not evaluated at all. -/
def evaluate (s : Session σ) (source : String) :
    Except CompileError (List Block) × EvalState σ :=
  match Sheet.parse source with
  | .error e =>
    (.error ⟨.unreadable e.cause, Source.locate source.toList e.offset⟩, { registry := s.registry })
  | .ok sheet => (s.setting.evalSheet sheet).run.run { registry := s.registry }

/-- Compiles a source to CSS text, or says what is wrong with it. No part of a source that fails is
given back. -/
def compile (s : Session σ) (source : String) : Except Diagnostic String × Session σ :=
  let text := SourceText.ofString s.info.sourceName source
  let settings := s.config.compile
  let (result, state) := s.evaluate source
  let warnings := state.warnings.map fun w =>
    Diagnostic.ofLocation .warning w.message w.place text settings.contextLines
  let session :=
    { s with registry := state.registry, warnings := s.warnings.clear.addAll warnings }
  match result with
  | .ok blocks => (.ok (Block.render blocks settings.outputStyle), session)
  | .error e =>
    (.error (.ofLocation .error e.cause.message e.place text settings.contextLines), session)

end Session

end HostSheet

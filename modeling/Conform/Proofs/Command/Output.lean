import Conform.Command
import Mathlib.Tactic.Common

/-! What a compile command leaves in its output file. The file is opened before anything is
looked at, and opening empties it. The stages that follow can each refuse the command, and none
of them has anything to put back, so a command that fails leaves its file empty, whatever the
file held; only where the file cannot be opened is it as it was. -/
namespace Conform.Command

/-- What a compile command goes through between opening and writing its output. -/
inductive Stage where
  | aliases
  | config
  | declaration
  | format
  | compiler
  deriving DecidableEq, Repr

namespace Compile

/-- A command passes the stages before the given one and fails there. -/
inductive FailsAt (c : Compile) (directory : Directory) : Stage → CommandError → Prop where
  | aliases {e : CommandError} (unread : c.setup.aliases.read = .error e) :
      FailsAt c directory .aliases e
  | config {aliases : List (Bytes × Bytes)} {e : ConfigError}
      (read : c.setup.aliases.read = .ok aliases)
      (unfit : Config.engine ⟨0, 0, c.setup.cacheDir, aliases⟩ directory = .error e) :
      FailsAt c directory .config (.config e)
  | declaration {engine : Engine Directory} {ready : List Event} {e : EngineError}
      (made : c.setup.engine directory = .ok (engine, ready))
      (refused : (engine.parse c.type).1 = .error e) : FailsAt c directory .declaration (.engine e)
  | format {engine : Engine Directory} {ready : List Event} {t : Ty}
      (made : c.setup.engine directory = .ok (engine, ready))
      (parsed : (engine.parse c.type).1 = .ok t)
      (unknown : Backend.ofFormat? c.format c.packageName c.functionName = none) :
      FailsAt c directory .format (.engine (.format ⟨c.format⟩))
  | compiler {engine : Engine Directory} {ready : List Event} {t : Ty} {backend : Backend}
      {e : CompileError} (made : c.setup.engine directory = .ok (engine, ready))
      (parsed : (engine.parse c.type).1 = .ok t)
      (found : Backend.ofFormat? c.format c.packageName c.functionName = some backend)
      (refused : t.compile backend = .error e) :
      FailsAt c directory .compiler (.engine (.compile e))

theorem engine_eq_error_iff {c : Compile} {directory : Directory} {e : CommandError} :
    c.setup.engine directory = .error e ↔
      c.FailsAt directory .aliases e ∨ c.FailsAt directory .config e := by
  rw [Setup.engine]
  constructor
  · intro failed
    split at failed
    · rename_i unread
      exact Or.inl (.aliases (Except.error.inj failed ▸ unread))
    · rename_i read
      split at failed
      · contradiction
      · rename_i unfit
        obtain rfl := Except.error.inj failed
        exact Or.inr (.config read unfit)
  · rintro (fails | fails)
    · cases fails with
      | aliases unread => rw [unread]
    · cases fails with
      | config read unfit => simp only [read, unfit]

/-- There is no text to write exactly when the command fails at one of its stages. -/
theorem text_eq_error_iff {c : Compile} {directory : Directory} {e : CommandError} :
    c.text directory = .error e ↔ ∃ stage, c.FailsAt directory stage e := by
  rw [text]
  constructor
  · intro failed
    split at failed
    · rename_i unmade
      obtain rfl := Except.error.inj failed
      exact (engine_eq_error_iff.mp unmade).elim (⟨_, ·⟩) (⟨_, ·⟩)
    · rename_i made
      split at failed
      · rename_i refused
        obtain rfl := Except.error.inj failed
        exact ⟨_, .declaration made (congrArg Prod.fst refused)⟩
      · rename_i parsed
        split at failed
        · rename_i unknown
          obtain rfl := Except.error.inj failed
          exact ⟨_, .format made (congrArg Prod.fst parsed) unknown⟩
        · rename_i found
          split at failed
          · contradiction
          · rename_i refused
            obtain rfl := Except.error.inj failed
            exact ⟨_, .compiler made (congrArg Prod.fst parsed) found refused⟩
  · rintro ⟨stage, fails⟩
    cases fails with
    | aliases unread => rw [engine_eq_error_iff.mpr (Or.inl (.aliases unread))]
    | config read unfit => rw [engine_eq_error_iff.mpr (Or.inr (.config read unfit))]
    | @declaration engine ready e made refused =>
      rw [made]
      rcases parse : engine.parse c.type with ⟨result, after⟩
      obtain rfl : result = .error e := by rw [← refused, parse]
      simp only [parse]
    | @format engine ready t made parsed unknown =>
      rw [made]
      rcases parse : engine.parse c.type with ⟨result, after⟩
      obtain rfl : result = .ok t := by rw [← parsed, parse]
      simp only [parse, unknown]
    | @compiler engine ready t backend e made parsed found refused =>
      rw [made]
      rcases parse : engine.parse c.type with ⟨result, after⟩
      obtain rfl : result = .ok t := by rw [← parsed, parse]
      simp only [parse, found, refused]

/-- The reasons of the stages are their own: none of them is that the output cannot be opened. -/
theorem FailsAt.ne_noOutput {c : Compile} {directory : Directory} {stage : Stage} {e : CommandError}
    (fails : c.FailsAt directory stage e) (path : Bytes) : e ≠ .noOutput path := by
  rintro rfl
  cases fails with
  | aliases unread =>
    rw [AliasSource.read.eq_def] at unread
    split at unread
    · contradiction
    · cases unread
    · split at unread
      · contradiction
      · cases unread

section File

variable {c : Compile} {path : Bytes} (named : c.destination = .file path) {output : OutputFile}
  {directory : Directory}

include named

theorem run_of_closed (closed : output.openable = false) :
    c.run output directory = ⟨[], output, some (.noOutput path)⟩ := by
  rw [run, named]
  simp only [closed, Bool.not_false, if_true]

theorem run_of_text (opened : output.openable = true) {text : Bytes}
    (written : c.text directory = .ok text) :
    c.run output directory = ⟨[], { output with content := some text }, none⟩ := by
  rw [run, named]
  simp only [opened, Bool.not_true, Bool.false_eq_true, if_false, written]

theorem run_of_failed (opened : output.openable = true) {e : CommandError}
    (failed : c.text directory = .error e) :
    c.run output directory = ⟨[], { output with content := some [] }, some e⟩ := by
  rw [run, named]
  simp only [opened, Bool.not_true, Bool.false_eq_true, if_false, failed]

theorem run_failure_iff {e : CommandError} : (c.run output directory).failure = some e ↔
    (output.openable = false ∧ e = .noOutput path) ∨
      (output.openable = true ∧ c.text directory = .error e) := by
  cases opened : output.openable with
  | false => simp [run_of_closed named opened, eq_comm]
  | true =>
    cases text : c.text directory with
    | ok written => simp [run_of_text named opened text]
    | error reason => simp [run_of_failed named opened text]

end File

end Compile

end Conform.Command

import DataSegment.CommandLine.Run
import DataSegment.Proofs.CommandLine.Arguments
import DataSegment.Proofs.Files.Places

namespace DataSegment.CommandLine

open Text Files

/-- What an outcome does apart from printing: it ends with a status, or a file is to be written. -/
def Outcome.effect : Outcome → Except Nat (Text × List UInt8)
  | .finished status _ => .error status
  | .save path bytes _ _ => .ok (path, bytes)

/-- The option that asks for progress changes nothing else in the arguments, wherever it can
stand. -/
def Readers.TakesProgress (readers : Readers) : Prop :=
  ∀ before after, TakesVerbose before after →
    readers.arguments (before ++ "-v".toList :: after) =
      (readers.arguments (before ++ after)).map (Arguments.withVerbose true)

variable {State Place : Type} (system : System State Place) (tree : State) (readers : Readers)

/-- What is loaded before an input is converted. -/
structure Loads (arguments : Arguments) (environment : Environment) : Prop where
  settings : match arguments.settings with
    | none => environment.settings = .standard
    | some path => ∃ bytes, system.read? tree path = some bytes ∧
        readers.settings? bytes = some environment.settings
  prototypes : Header.Database.load (system.read? tree) arguments.header =
    .ok environment.prototypes
  suppressed : Suppression.load (system.read? tree) arguments.lists = .ok environment.suppressed

/-- The bytes of the input convert to a text. -/
def Converts (arguments : Arguments) (bytes : List UInt8) (text : Text) : Prop :=
  ∃ environment, Loads system tree readers arguments environment ∧
    system.read? tree arguments.input = some bytes ∧
    ((Session.start arguments.input).convert environment (Latin.decode bytes)).1 = .ok text

variable {system tree readers} {arguments : Arguments}

theorem chosenSettings_eq_ok_iff {settings : Settings} :
    chosenSettings readers.settings? (system.open? tree) arguments.settings = .ok settings ↔
      match arguments.settings with
      | none => settings = .standard
      | some path => ∃ bytes, system.read? tree path = some bytes ∧
          readers.settings? bytes = some settings := by
  cases arguments.settings with
  | none =>
      rw [chosenSettings, Except.ok.injEq]
      exact eq_comm
  | some path =>
      rw [chosenSettings, readSettings]
      simp only [System.read?]
      cases system.open? tree path with
      | none => simp
      | some content =>
          cases found : content.bytes?.bind readers.settings? with
          | none =>
              dsimp only [Option.bind_some]
              rw [found]
              refine iff_of_false (by simp) ?_
              rintro ⟨bytes, held, read⟩
              rw [Option.bind_eq_none_iff.1 found bytes held] at read
              contradiction
          | some read =>
              obtain ⟨bytes, held, same⟩ := Option.bind_eq_some_iff.1 found
              simp [held, same]

theorem effect_convert (environment : Environment) (printed : List Printed)
    (bytes : List UInt8) :
    (convert arguments environment printed bytes).effect =
      match ((Session.start arguments.input).convert environment (Latin.decode bytes)).1 with
      | .error _ => .error 1
      | .ok text => .ok (arguments.output, Latin.encode text) := by
  unfold convert
  dsimp only
  cases ((Session.start arguments.input).convert environment (Latin.decode bytes)).1 <;> rfl

/-- An input that converts is to be saved. -/
theorem effect_of_converts {bytes : List UInt8} {text : Text}
    (converts : Converts system tree readers arguments bytes text) :
    (run readers.settings? (system.open? tree) arguments).effect =
      .ok (arguments.output, Latin.encode text) := by
  obtain ⟨environment, loads, input, converted⟩ := converts
  have read : (fun path => (system.open? tree path).bind Content.bytes?) = system.read? tree := rfl
  have held : (system.open? tree arguments.input).bind Content.bytes? = some bytes := input
  rw [run, chosenSettings_eq_ok_iff.2 loads.settings]
  dsimp only
  rw [read, loads.prototypes]
  dsimp only
  rw [loads.suppressed]
  dsimp only
  rw [held]
  dsimp only
  rw [effect_convert, converted]

/-- A run fails with status one unless its input converts. -/
theorem effect_run (arguments : Arguments) :
    (run readers.settings? (system.open? tree) arguments).effect = .error 1 ∨
      ∃ bytes text, Converts system tree readers arguments bytes text := by
  have read : (fun path => (system.open? tree path).bind Content.bytes?) = system.read? tree := rfl
  have held : (system.open? tree arguments.input).bind Content.bytes? =
      system.read? tree arguments.input := rfl
  unfold run
  dsimp only
  rw [read, held]
  cases chosen : chosenSettings readers.settings? (system.open? tree) arguments.settings with
  | error error => exact .inl rfl
  | ok settings =>
      dsimp only
      cases prototypes : Header.Database.load (system.read? tree) arguments.header with
      | error error => exact .inl rfl
      | ok database =>
          dsimp only
          cases suppressed : Suppression.load (system.read? tree) arguments.lists with
          | error path => exact .inl rfl
          | ok names =>
              dsimp only
              cases input : system.read? tree arguments.input with
              | none => exact .inl rfl
              | some bytes =>
                  dsimp only
                  rw [effect_convert]
                  let environment : Environment := ⟨settings, database, names⟩
                  have loads : Loads system tree readers arguments environment :=
                    ⟨chosenSettings_eq_ok_iff.1 chosen, prototypes, suppressed⟩
                  cases converted : ((Session.start arguments.input).convert environment
                      (Latin.decode bytes)).1 with
                  | error failure => exact .inl rfl
                  | ok text => exact .inr ⟨bytes, text, environment, loads, input, converted⟩

/-- Whether progress is asked for does not count for what is saved. -/
theorem effect_withVerbose (verbose : Bool) :
    (run readers.settings? (system.open? tree) (arguments.withVerbose verbose)).effect =
      (run readers.settings? (system.open? tree) arguments).effect := by
  rcases effect_run arguments with fails | ⟨bytes, text, environment, loads, converts⟩
  · rcases effect_run (arguments.withVerbose verbose) with loud |
      ⟨bytes, text, environment, loads, converts⟩
    · rw [loud, fails]
    · have quiet : Loads system tree readers arguments environment :=
        ⟨loads.settings, loads.prototypes, loads.suppressed⟩
      rw [effect_of_converts ⟨environment, quiet, converts⟩] at fails
      contradiction
  · have loud : Loads system tree readers (arguments.withVerbose verbose) environment :=
      ⟨loads.settings, loads.prototypes, loads.suppressed⟩
    rw [effect_of_converts ⟨environment, loads, converts⟩,
      effect_of_converts ⟨environment, loud, converts⟩]
    rfl

section

variable (system : System State Place) (tree : State)

/-- An outcome that ends the run leaves the files alone. -/
theorem perform_of_error {outcome : Outcome} {status : Nat}
    (ends : outcome.effect = .error status) :
    (outcome.perform system tree).status = status ∧ (outcome.perform system tree).tree = tree := by
  cases outcome with
  | finished other printed => exact ⟨Except.error.inj ends, rfl⟩
  | save path bytes written refused => contradiction

/-- A file is written as a whole, or the files are left alone. -/
theorem perform_of_save {outcome : Outcome} {path : Text} {bytes : List UInt8}
    (saves : outcome.effect = .ok (path, bytes)) :
    (outcome.perform system tree).status =
        (if (system.write? tree path bytes).isSome then 0 else 1) ∧
      (outcome.perform system tree).tree = (system.write? tree path bytes).getD tree := by
  cases outcome with
  | finished status printed => contradiction
  | save other content written refused =>
      obtain ⟨rfl, rfl⟩ := Prod.mk.inj (Except.ok.inj saves)
      unfold Outcome.perform
      dsimp only
      cases system.write? tree other content <;> exact ⟨rfl, rfl⟩

/-- Outcomes with the same effect leave the same behind, whatever they print. -/
theorem perform_congr {first second : Outcome} (same : first.effect = second.effect) :
    (first.perform system tree).status = (second.perform system tree).status ∧
      (first.perform system tree).tree = (second.perform system tree).tree := by
  cases effect : second.effect with
  | error status =>
      rw [effect] at same
      obtain ⟨status, left⟩ := perform_of_error system tree effect
      obtain ⟨statusToo, leftToo⟩ := perform_of_error system tree same
      exact ⟨statusToo.trans status.symm, leftToo.trans left.symm⟩
  | ok saved =>
      rw [effect] at same
      obtain ⟨status, left⟩ := perform_of_save system tree effect
      obtain ⟨statusToo, leftToo⟩ := perform_of_save system tree same
      exact ⟨statusToo.trans status.symm, leftToo.trans left.symm⟩

end

/-- A run that is asked for saves the text that its input converts to, or it fails. -/
theorem perform_run (arguments : Arguments) :
    let ended := (run readers.settings? (system.open? tree) arguments).perform system tree
    (ended.status = 0 ∧ ∃ bytes text, Converts system tree readers arguments bytes text ∧
        system.write? tree arguments.output (Latin.encode text) = some ended.tree) ∨
      (ended.status = 1 ∧ ended.tree = tree ∧
        ∀ bytes text, Converts system tree readers arguments bytes text →
          system.write? tree arguments.output (Latin.encode text) = none) := by
  intro ended
  rcases effect_run arguments with fails | ⟨bytes, text, converts⟩
  · obtain ⟨status, left⟩ := perform_of_error system tree fails
    refine .inr ⟨status, left, fun bytes text converts => ?_⟩
    rw [effect_of_converts converts] at fails
    contradiction
  · have saves := effect_of_converts converts
    obtain ⟨status, left⟩ := perform_of_save system tree saves
    cases wrote : system.write? tree arguments.output (Latin.encode text) with
    | some next =>
        rw [wrote] at status left
        exact .inl ⟨status, bytes, text, converts, wrote.trans (congrArg some left.symm)⟩
    | none =>
        rw [wrote] at status left
        refine .inr ⟨status, left, fun other found converts => ?_⟩
        rw [effect_of_converts converts] at saves
        rw [(Prod.mk.inj (Except.ok.inj saves)).2, wrote]

theorem runWith_of_read {words : List Text} (read : readers.arguments words = .ok arguments) :
    runWith system tree readers words =
      (run readers.settings? (system.open? tree) arguments).perform system tree := by
  rw [runWith, start, read]

theorem runWith_of_refused {words : List Text} {refusal : Refusal}
    (refused : readers.arguments words = .error refusal) :
    (runWith system tree readers words).status = (if refusal = .usage then 2 else 0) ∧
      (runWith system tree readers words).tree = tree := by
  rw [runWith, start, refused]
  cases refusal <;> exact ⟨rfl, rfl⟩

/-- Arguments that are read alike but for the request for progress leave the same behind. -/
theorem runWith_of_map {words others : List Text}
    (alike : readers.arguments others =
      (readers.arguments words).map (Arguments.withVerbose true)) :
    (runWith system tree readers others).status = (runWith system tree readers words).status ∧
      (runWith system tree readers others).tree = (runWith system tree readers words).tree := by
  cases read : readers.arguments words with
  | error refusal =>
      rw [read] at alike
      rw [runWith, runWith, start, start, alike, read]
      exact ⟨rfl, rfl⟩
  | ok arguments =>
      rw [read] at alike
      rw [runWith_of_read read, runWith_of_read alike]
      exact perform_congr system tree (effect_withVerbose true)

theorem takesProgress_standard : Readers.standard.TakesProgress :=
  fun _ _ stands => read_insert_verbose stands

/-- On any files, a run saves the text that its input converts to, under the path of its output
only, or it fails and leaves the files alone. Whether progress is asked for does not count. -/
theorem runWith_atomic {State Place : Type} {system : System State Place} {readers : Readers}
    (lawful : system.Lawful) (takes : readers.TakesProgress) (tree : State) (words : List Text) :
    let ended := runWith system tree readers words
    (ended.status ≠ 0 → ended.tree = tree) ∧
    (match readers.arguments words with
      | .error refusal =>
          ended.status = (if refusal = .usage then 2 else 0) ∧ ended.tree = tree
      | .ok arguments =>
          (ended.status = 0 ∧ ∃ bytes text, Converts system tree readers arguments bytes text ∧
            system.Holds tree arguments.input bytes ∧
            system.Replaces tree arguments.output (Latin.encode text) ended.tree) ∨
          (ended.status = 1 ∧ ended.tree = tree ∧
            ∀ bytes text, Converts system tree readers arguments bytes text →
              system.write? tree arguments.output (Latin.encode text) = none)) ∧
    ∀ before after, TakesVerbose before after →
      (runWith system tree readers (before ++ "-v".toList :: after)).status =
          (runWith system tree readers (before ++ after)).status ∧
        (runWith system tree readers (before ++ "-v".toList :: after)).tree =
          (runWith system tree readers (before ++ after)).tree := by
  intro ended
  refine ⟨fun fails => ?_, ?_, fun before after stands => runWith_of_map (takes _ _ stands)⟩
  · cases read : readers.arguments words with
    | error refusal => exact (runWith_of_refused read).2
    | ok arguments =>
        have ends : ended = _ := runWith_of_read read
        rw [ends] at fails ⊢
        rcases perform_run arguments with ⟨status, _⟩ | ⟨_, left, _⟩
        · exact absurd status fails
        · exact left
  · cases read : readers.arguments words with
    | error refusal => exact runWith_of_refused read
    | ok arguments =>
        have ends : ended = _ := runWith_of_read read
        rw [ends]
        rcases perform_run arguments with ⟨status, bytes, text, converts, wrote⟩ | fails
        · obtain ⟨environment, loads, input, converted⟩ := converts
          exact .inl ⟨status, bytes, text, ⟨environment, loads, input, converted⟩,
            lawful.read input, lawful.write wrote⟩
        · exact .inr fails

/-- The output has the absolute path of the input, and the header is above the working directory. -/
theorem runWith_atomic_replaced :
    let tree : Tree := ⟨["work".toList],
      [(["work".toList, "in".toList], .file (Latin.encode "_data segment\nx db 1\n".toList)),
        (["h".toList], .file [])]⟩
    let words := ["/work/in".toList, "in".toList, "../h".toList]
    let quiet := runWith Tree.system tree .standard words
    let loud := runWith Tree.system tree .standard ("-v".toList :: words)
    let text := "\n.data\n.align 4\n_x:\t\t  .byte 1\n\n.global _x\n".toList
    quiet.status = 0 ∧ quiet.tree.read? "in".toList = some (Latin.encode text) ∧
      (∃ text, Tree.system.Replaces tree "/work/in".toList (Latin.encode text) quiet.tree) ∧
      loud.status = 0 ∧ loud.tree.read? "in".toList = some (Latin.encode text) ∧
      loud.printed ≠ quiet.printed := by
  intro tree words quiet loud text
  have status : quiet.status = 0 := by decide +kernel
  have written : quiet.tree.read? "in".toList = some (Latin.encode text) := by decide +kernel
  obtain ⟨_, ended, progress⟩ :=
    runWith_atomic Tree.lawful_system takesProgress_standard tree words
  obtain ⟨statusToo, left⟩ : loud.status = quiet.status ∧ loud.tree = quiet.tree :=
    progress [] words ⟨by decide, by decide, by decide⟩
  refine ⟨status, written, ?_, statusToo.trans status, ?_, by decide +kernel⟩
  · rcases ended with ⟨_, _, text, _, _, replaces⟩ | ⟨fails, _⟩
    · exact ⟨text, replaces⟩
    · rw [status] at fails
      contradiction
  · rw [left]
    exact written

/-- A run that is asked for progress twice is refused, and one that is asked for help writes
nothing. -/
theorem runOn_verbose_twice :
    let tree : Tree := ⟨["work".toList],
      [(["work".toList, "in".toList], .file []), (["h".toList], .file [])]⟩
    let words := ["-v".toList, "out".toList, "in".toList, "../h".toList]
    let once := runOn tree words
    let twice := runOn tree ("-v".toList :: words)
    let helped := runOn tree (words ++ ["--help".toList])
    (once.status = 0 ∧ once.tree.read? "out".toList = some [10]) ∧
      (twice.status = 2 ∧ twice.tree.read? "out".toList = none) ∧
      (helped.status = 0 ∧ helped.tree.read? "out".toList = none) := by
  decide +kernel

end DataSegment.CommandLine

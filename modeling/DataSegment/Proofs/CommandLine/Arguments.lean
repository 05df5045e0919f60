import DataSegment.CommandLine.Arguments
import DataSegment.Proofs.Results

namespace DataSegment.CommandLine

/-- The word asks for progress. -/
def asksVerbose (word : Text) : Bool :=
  word == "--verbose".toList || "-v".toList.isPrefixOf word

/-- The next word is the settings document. -/
def wantsPath (word : Text) : Bool := word == "-c".toList || word == "--config".toList

def Collected.withVerbose (verbose : Bool) (collected : Collected) : Collected :=
  { collected with verbose := verbose }

def Step.withVerbose (verbose : Bool) : Step → Step
  | .done collected => .done (collected.withVerbose verbose)
  | .wantsSettings collected => .wantsSettings (collected.withVerbose verbose)

def Arguments.withVerbose (verbose : Bool) (arguments : Arguments) : Arguments :=
  { arguments with verbose := verbose }

variable {collected : Collected} {word path : Text} (verbose : Bool)

theorem setSettings_withVerbose :
    (collected.withVerbose verbose).setSettings path =
      (collected.setSettings path).map (Collected.withVerbose verbose) := by
  unfold Collected.setSettings
  change (if collected.settings.isSome then _ else _) = _
  split <;> rfl

theorem setSettings_done_withVerbose :
    ((collected.withVerbose verbose).setSettings path).map Step.done =
      ((collected.setSettings path).map Step.done).map (Step.withVerbose verbose) := by
  rw [setSettings_withVerbose]
  cases collected.setSettings path <;> rfl

/-- Letters that do not ask for progress are read without regard to it. -/
theorem readLetters_withVerbose {letters : Text} (silent : letters.head? ≠ some 'v') :
    readLetters (collected.withVerbose verbose) letters =
      (readLetters collected letters).map (Step.withVerbose verbose) := by
  cases letters with
  | nil => rfl
  | cons letter rest =>
      have other : letter ≠ 'v' := by simpa using silent
      unfold readLetters
      rw [if_neg other, if_neg other]
      split
      · split
        · rfl
        · exact setSettings_done_withVerbose verbose
        · exact setSettings_done_withVerbose verbose
      · split
        · rfl
        · split <;> rfl

theorem readName_withVerbose {name : Text} (silent : name ≠ "verbose".toList) :
    readName (collected.withVerbose verbose) name =
      (readName collected name).map (Step.withVerbose verbose) := by
  unfold readName
  split
  · split
    · exact setSettings_done_withVerbose verbose
    · rfl
  · rw [if_neg silent, if_neg silent]
    split
    · rfl
    · split
      · rfl
      · split <;> rfl

/-- An option starts with a dash. -/
theorem exists_of_isOption (option : isOption word = true) : ∃ letters, word = '-' :: letters := by
  cases word with
  | nil => simp [isOption] at option
  | cons first letters =>
      refine ⟨letters, ?_⟩
      have dash : first = '-' := by
        simp only [isOption, List.head?_cons, Bool.and_eq_true, beq_iff_eq, Option.some.injEq]
          at option
        exact option.1
      rw [dash]

theorem readOption_withVerbose {result : Except Refusal Step} (option : isOption word = true)
    (silent : asksVerbose word = false) (read : readOption collected word = result) :
    readOption (collected.withVerbose verbose) word = result.map (Step.withVerbose verbose) := by
  subst read
  obtain ⟨letters, rfl⟩ := exists_of_isOption option
  unfold readOption
  split
  · rename_i name same
    apply readName_withVerbose
    rintro rfl
    rw [same] at silent
    exact absurd silent (by decide)
  · apply readLetters_withVerbose
    intro first
    rw [List.drop_one, List.tail_cons] at first
    obtain ⟨rest, rfl⟩ := List.head?_eq_some_iff.1 first
    simp [asksVerbose] at silent

theorem map_done_ne_wantsSettings {result : Except Refusal Collected} {next : Collected} :
    result.map Step.done ≠ .ok (.wantsSettings next) := by
  intro same
  obtain ⟨_, _, wrong⟩ := Results.map_eq_ok_iff.1 same
  contradiction

/-- Only two options want the next word. -/
theorem wantsPath_of_readOption {next : Collected} (option : isOption word = true)
    (silent : asksVerbose word = false)
    (read : readOption collected word = .ok (.wantsSettings next)) : wantsPath word = true := by
  obtain ⟨letters, rfl⟩ := exists_of_isOption option
  unfold readOption at read
  split at read
  · rename_i name same
    rw [same]
    unfold readName at read
    split at read
    · split at read
      · exact absurd read map_done_ne_wantsSettings
      · cases read
    · split at read
      · rename_i config
        rw [config]
        decide
      · split at read
        · exact absurd read map_done_ne_wantsSettings
        · split at read
          · cases read
          · split at read <;> cases read
  · rw [List.drop_one, List.tail_cons] at read
    cases letters with
    | nil => cases read
    | cons letter rest =>
        have other : letter ≠ 'v' := by
          rintro rfl
          simp [asksVerbose] at silent
        rw [readLetters.eq_def] at read
        dsimp only at read
        rw [if_neg other] at read
        split at read
        · rename_i settings
          split at read
          · rw [settings]
            decide
          · exact absurd read map_done_ne_wantsSettings
          · exact absurd read map_done_ne_wantsSettings
        · split at read
          · cases read
          · split at read <;> cases read

section

variable {next : Collected} {refusal : Refusal} {rest : List Text}
  (plain : word ≠ ['-', '-'])
include plain

theorem collect_operand (operand : ¬isOption word = true) :
    collect collected (word :: rest) = collect (collected.addOperand word) rest := by
  rw [collect, if_neg plain, if_neg operand]

theorem collect_error (option : isOption word = true)
    (read : readOption collected word = .error refusal) :
    collect collected (word :: rest) = .error refusal := by
  rw [collect, if_neg plain, if_pos option, read]

theorem collect_done (option : isOption word = true)
    (read : readOption collected word = .ok (.done next)) :
    collect collected (word :: rest) = collect next rest := by
  rw [collect, if_neg plain, if_pos option, read]

theorem collect_alone (option : isOption word = true)
    (read : readOption collected word = .ok (.wantsSettings next)) :
    collect collected [word] = .error .usage := by
  rw [collect, if_neg plain, if_pos option, read]

/-- An option is no path. -/
theorem collect_no_path (option : isOption word = true)
    (read : readOption collected word = .ok (.wantsSettings next))
    (wrong : isOption path = true) :
    collect collected (word :: path :: rest) = .error .usage := by
  rw [collect, if_neg plain, if_pos option, read]
  dsimp only
  rw [if_pos wrong]

theorem collect_path (option : isOption word = true)
    (read : readOption collected word = .ok (.wantsSettings next))
    (operand : ¬isOption path = true) :
    collect collected (word :: path :: rest) =
      next.setSettings path >>= fun collected => collect collected rest := by
  rw [collect, if_neg plain, if_pos option, read]
  dsimp only
  rw [if_neg operand]
  cases next.setSettings path <;> rfl

end

theorem foldl_addOperand_withVerbose (operands : List Text) :
    operands.foldl Collected.addOperand (collected.withVerbose verbose) =
      (operands.foldl Collected.addOperand collected).withVerbose verbose := by
  induction operands generalizing collected with
  | nil => rfl
  | cons operand operands inductionHypothesis =>
      have same : (collected.withVerbose verbose).addOperand operand =
          (collected.addOperand operand).withVerbose verbose := rfl
      rw [List.foldl_cons, List.foldl_cons, same, inductionHypothesis]

theorem ne_dashes_of_operand (operand : ¬isOption word = true) : word ≠ ['-', '-'] := by
  rintro rfl
  exact operand (by decide)

/-- Words that do not ask for progress are read without regard to it. -/
theorem collect_withVerbose (collected : Collected) {words : List Text}
    (silent : ∀ word ∈ words.takeWhile (· != ['-', '-']), asksVerbose word = false) :
    collect (collected.withVerbose verbose) words =
      (collect collected words).map (Collected.withVerbose verbose) := by
  have other {first : Text} {rest : List Text} (plain : first ≠ ['-', '-'])
      (silent : ∀ word ∈ (first :: rest).takeWhile (· != ['-', '-']), asksVerbose word = false) :
      asksVerbose first = false ∧
        ∀ word ∈ rest.takeWhile (· != ['-', '-']), asksVerbose word = false := by
    rw [List.takeWhile_cons_of_pos (by simpa using plain)] at silent
    exact List.forall_mem_cons.1 silent
  induction collected, words using collect.induct with
  | case1 collected => rfl
  | case2 collected operands =>
      rw [collect, collect, if_pos rfl, if_pos rfl, foldl_addOperand_withVerbose]
      rfl
  | case3 collected word rest plain option refusal read =>
      have same := readOption_withVerbose verbose option (other plain silent).1 read
      rw [collect_error plain option read, collect_error plain option same]
      rfl
  | case4 collected word rest plain option next read inductionHypothesis =>
      obtain ⟨quiet, others⟩ := other plain silent
      have same := readOption_withVerbose verbose option quiet read
      rw [collect_done plain option read, collect_done plain option same]
      exact inductionHypothesis others
  | case5 collected word plain option next read =>
      have same := readOption_withVerbose verbose option (other plain silent).1 read
      rw [collect_alone plain option read, collect_alone plain option same]
      rfl
  | case6 collected word plain option next read path rest wrong =>
      have same := readOption_withVerbose verbose option (other plain silent).1 read
      rw [collect_no_path plain option read wrong, collect_no_path plain option same wrong]
      rfl
  | case7 collected word plain option next read path rest operand refusal set =>
      have same := readOption_withVerbose verbose option (other plain silent).1 read
      rw [collect_path plain option read operand, collect_path plain option same operand,
        setSettings_withVerbose, set]
      rfl
  | case8 collected word plain option next read path rest operand after set inductionHypothesis =>
      obtain ⟨quiet, others⟩ := other plain silent
      have same := readOption_withVerbose verbose option quiet read
      rw [collect_path plain option read operand, collect_path plain option same operand,
        setSettings_withVerbose, set]
      exact inductionHypothesis (other (ne_dashes_of_operand operand) others).2
  | case9 collected word rest plain operand inductionHypothesis =>
      rw [collect_operand plain operand, collect_operand plain operand]
      exact inductionHypothesis (other plain silent).2

/-- Words that leave nothing to be read are read before the words that follow them. -/
theorem collect_append {before : List Text} (rest : List Text)
    (free : ∀ word ∈ before.getLast?, wantsPath word = false)
    (silent : ∀ word ∈ before, word ≠ ['-', '-'] ∧ asksVerbose word = false) :
    collect collected (before ++ rest) =
      collect collected before >>= fun next => collect next rest := by
  have other {first : Text} {before : List Text}
      (free : ∀ word ∈ (first :: before).getLast?, wantsPath word = false) :
      ∀ word ∈ before.getLast?, wantsPath word = false := by
    intro word last
    apply free
    rw [List.getLast?_cons, Option.mem_def.1 last]
    rfl
  induction collected, before using collect.induct with
  | case1 collected => rfl
  | case2 collected operands => exact absurd rfl (silent _ (List.mem_cons_self ..)).1
  | case3 collected word before plain option refusal read =>
      rw [List.cons_append, collect_error plain option read, collect_error plain option read]
      rfl
  | case4 collected word before plain option next read inductionHypothesis =>
      rw [List.cons_append, collect_done plain option read, collect_done plain option read]
      exact inductionHypothesis (other free) (List.forall_mem_cons.1 silent).2
  | case5 collected word plain option next read =>
      have wants := wantsPath_of_readOption option (silent word (List.mem_cons_self ..)).2 read
      rw [free word rfl] at wants
      contradiction
  | case6 collected word plain option next read path before wrong =>
      rw [List.cons_append, List.cons_append, collect_no_path plain option read wrong,
        collect_no_path plain option read wrong]
      rfl
  | case7 collected word plain option next read path before operand refusal set =>
      rw [List.cons_append, List.cons_append, collect_path plain option read operand,
        collect_path plain option read operand, set]
      rfl
  | case8 collected word plain option next read path before operand after set
      inductionHypothesis =>
      rw [List.cons_append, List.cons_append, collect_path plain option read operand,
        collect_path plain option read operand, set]
      have others := (List.forall_mem_cons.1 (List.forall_mem_cons.1 silent).2).2
      exact inductionHypothesis (other (other free)) others
  | case9 collected word before plain operand inductionHypothesis =>
      rw [List.cons_append, collect_operand plain operand, collect_operand plain operand]
      exact inductionHypothesis (other free) (List.forall_mem_cons.1 silent).2

/-- A word between the arguments is read as the option that asks for progress, and it is the only
one. -/
structure TakesVerbose (before after : List Text) : Prop where
  /-- The options are not ended before it, and nothing there asks for progress. -/
  quiet : ∀ word ∈ before, word ≠ ['-', '-'] ∧ asksVerbose word = false
  /-- It is not taken for a path. -/
  free : ∀ word ∈ before.getLast?, wantsPath word = false
  /-- Nothing behind it asks for progress until the options are ended. -/
  silent : ∀ word ∈ after.takeWhile (· != ['-', '-']), asksVerbose word = false

example : TakesVerbose ["-c".toList, "settings".toList] ["output".toList, "input".toList] :=
  ⟨by decide, by decide, by decide⟩

theorem finish_withVerbose :
    (collected.withVerbose verbose).finish =
      collected.finish.map (Arguments.withVerbose verbose) := by
  have same : (collected.withVerbose verbose).operands = collected.operands := rfl
  unfold Collected.finish
  rw [same]
  split <;> rfl

theorem collect_verbose (quiet : collected.verbose = false) (rest : List Text) :
    collect collected ("-v".toList :: rest) = collect (collected.withVerbose true) rest := by
  have read : readOption collected "-v".toList = .ok (.done (collected.withVerbose true)) := by
    change readLetters collected ['v'] = _
    rw [readLetters, if_pos rfl, Collected.setVerbose, quiet]
    rfl
  exact collect_done (by decide) (by decide) read

/-- What does not ask for progress leaves it as it is. -/
theorem verbose_of_collect {words : List Text} {next : Collected}
    (silent : ∀ word ∈ words, asksVerbose word = false)
    (read : collect collected words = .ok next) : next.verbose = collected.verbose := by
  have same : collect collected words =
      (collect collected words).map (Collected.withVerbose collected.verbose) :=
    collect_withVerbose collected.verbose collected
      fun word member => silent word ((List.takeWhile_prefix _).subset member)
  rw [read] at same
  have kept : next = next.withVerbose collected.verbose := Except.ok.inj same
  rw [kept]
  rfl

/-- The option changes nothing but whether progress is asked for. -/
theorem read_insert_verbose {before after : List Text} (takes : TakesVerbose before after) :
    Arguments.read (before ++ "-v".toList :: after) =
      (Arguments.read (before ++ after)).map (Arguments.withVerbose true) := by
  have all : collect .none (before ++ "-v".toList :: after) =
      (collect .none (before ++ after)).map (Collected.withVerbose true) := by
    rw [collect_append _ takes.free takes.quiet, collect_append _ takes.free takes.quiet]
    cases read : collect .none before with
    | error refusal => rfl
    | ok next =>
        have quiet : next.verbose = false :=
          verbose_of_collect (fun word member => (takes.quiet word member).2) read
        change collect next ("-v".toList :: after) = (collect next after).map _
        rw [collect_verbose quiet, collect_withVerbose true next takes.silent]
  rw [Arguments.read, Arguments.read, all]
  cases collect .none (before ++ after) with
  | error refusal => rfl
  | ok collected => exact finish_withVerbose true

end DataSegment.CommandLine

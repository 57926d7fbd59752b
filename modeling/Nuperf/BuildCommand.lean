import Nuperf.BuildRun
import Nuperf.KlyspecOptions

set_option autoImplicit false

namespace Nuperf.Cli

open ByteString Klyspec

/-- `OptionSpec`, with an id and names. -/
def optionSpec (id : String) (names : List String) : ArgumentSpec where
  id := ascii id
  kind := .option
  valuePolicy := .required
  names := names.map ascii

/-- An `ArgumentSpec` that is repeatable. -/
def repeatableSpec (id : String) (names : List String) : ArgumentSpec where
  id := ascii id
  kind := .repeatable
  valuePolicy := .required
  names := names.map ascii

/-- The arguments of `build-run`. -/
def buildSpecs : List ArgumentSpec :=
  [optionSpec "input" ["--input", "-i"],
   { optionSpec "output" ["--output", "-o"] with defaultValue := some (ascii "-") },
   optionSpec "method" ["--method", "-m"],
   optionSpec "target" ["--target", "-t"],
   optionSpec "schema" ["--schema"],
   optionSpec "from-json" ["--from-json"],
   optionSpec "from-yaml" ["--from-yaml"],
   optionSpec "from-sexpr" ["--from-sexpr"],
   optionSpec "from-xml" ["--from-xml"],
   optionSpec "dump-json-schema" ["--dump-json-schema"],
   repeatableSpec "option" ["--option"]]

/-- The arguments of `project-init`. -/
def initSpecs : List ArgumentSpec := [repeatableSpec "add-build" ["--add-build"]]

/-- `reg.register_command` and `reg.register_argument`, one argument after another. -/
def registryOf (command : Bytes) (specs : List ArgumentSpec) : Registry :=
  Registry.empty.run (.command { name := command } :: specs.map (.argument command))

/-- `get1`. -/
def firstValue (pr : ParseResult) (key : Bytes) : Bytes :=
  match pr.values key with
  | some (value :: _) => value
  | _ => []

/-- `input_format`, `input_path` and `structured_count`. -/
structure ImportChoice where
  format : InputFormat
  path : Bytes
  count : Nat

/-- `if (!path.empty())`, with the format that is asked for by the option. -/
def considerImport (choice : ImportChoice) (candidate : InputFormat × Bytes) : ImportChoice :=
  if candidate.2 = [] then choice
  else { format := candidate.1, path := candidate.2, count := choice.count + 1 }

/-- The formats, in the order in which the options are looked at. -/
def importOptions : List (InputFormat × Bytes) :=
  [(.json, ascii "from-json"), (.yaml, ascii "from-yaml"), (.sexpr, ascii "from-sexpr"),
   (.xml, ascii "from-xml")]

def chooseImport (pr : ParseResult) : ImportChoice :=
  (importOptions.map fun option => (option.1, firstValue pr option.2)).foldl considerImport
    ⟨.lines, firstValue pr (ascii "input"), 0⟩

def tooManyImports : Bytes :=
  ascii "use only one of --from-json/--from-yaml/--from-sexpr/--from-xml"

/-- The arguments of the call of `cmd_build_run`. -/
def callArguments (pr : ParseResult) (choice : ImportChoice) : BuildArguments where
  inputPath := CString.ofBytes choice.path
  outputPath := CString.ofBytes (firstValue pr (ascii "output"))
  method := CString.ofBytes (firstValue pr (ascii "method"))
  target := CString.ofBytes (firstValue pr (ascii "target"))
  options := ((pr.values (ascii "option")).getD []).map CString.ofBytes
  inputFormat := choice.format
  schemaPath := CString.ofBytes (firstValue pr (ascii "schema"))
  schemaDumpPath := CString.ofBytes (firstValue pr (ascii "dump-json-schema"))

/-- The branch of `build run` up to the call of `cmd_build_run`: its arguments, or the lines that
are written to the standard error stream. -/
def buildArguments (rest : List Bytes) : Except (List Bytes) BuildArguments :=
  let pr := (registryOf (ascii "build-run") buildSpecs).parse (ascii "build-run") rest
  if pr.ok = false then .error pr.diagnostics
  else if pr.positionals ≠ [] then .error [ascii "unexpected positional argument(s)"]
  else
    let choice := chooseImport pr
    if 1 < choice.count then .error [tooManyImports] else .ok (callArguments pr choice)

/-- The branch of `project init` up to the call of `cmd_project_init`: the directory and the build
files. -/
def initArguments (rest : List Bytes) : Except (List Bytes) (Bytes × List Bytes) :=
  let pr := (registryOf (ascii "project-init") initSpecs).parse (ascii "project-init") rest
  if pr.ok = false then .error pr.diagnostics
  else if 1 < pr.positionals.length then .error [ascii "unexpected extra positional argument(s)"]
  else .ok (pr.positionals.headD [], (pr.values (ascii "add-build")).getD [])

section Specs

theorem buildSpecs_valued : Valued buildSpecs where
  distinct := by unfold Distinct; decide
  policy := by decide
  names := by decide
  ids := by decide

theorem initSpecs_valued : Valued initSpecs where
  distinct := by unfold Distinct; decide
  policy := by decide
  names := by decide
  ids := by decide

theorem buildParse_iff (rest : List Bytes) (pr : ParseResult) :
    (registryOf (ascii "build-run") buildSpecs).parse (ascii "build-run") rest = pr ∧
        pr.ok = true ↔
      ∃ settings positionals, Line buildSpecs rest settings positionals ∧
        Permitted buildSpecs settings positionals ∧ pr = answer buildSpecs settings positionals :=
  parse_single_iff _ buildSpecs buildSpecs_valued (by decide) (by decide) rest pr

theorem initParse_iff (rest : List Bytes) (pr : ParseResult) :
    (registryOf (ascii "project-init") initSpecs).parse (ascii "project-init") rest = pr ∧
        pr.ok = true ↔
      ∃ settings positionals, Line initSpecs rest settings positionals ∧
        Permitted initSpecs settings positionals ∧ pr = answer initSpecs settings positionals :=
  parse_single_iff _ initSpecs initSpecs_valued (by decide) (by decide) rest pr

theorem buildArguments_error (rest lines : List Bytes)
    (refused : buildArguments rest = .error lines) : lines ≠ [] := by
  have told := parse_told (registryOf (ascii "build-run") buildSpecs) (ascii "build-run") rest
  rw [buildArguments] at refused
  generalize (registryOf (ascii "build-run") buildSpecs).parse (ascii "build-run") rest = pr
    at refused told
  dsimp only at refused
  split_ifs at refused with failed extra many
  · cases refused
    intro none_
    rw [ParseResult.Told, failed, none_] at told
    cases told
  · cases refused
    exact List.cons_ne_nil _ _
  · cases refused
    exact List.cons_ne_nil _ _

theorem initArguments_error (rest lines : List Bytes)
    (refused : initArguments rest = .error lines) : lines ≠ [] := by
  have told := parse_told (registryOf (ascii "project-init") initSpecs) (ascii "project-init") rest
  rw [initArguments] at refused
  generalize (registryOf (ascii "project-init") initSpecs).parse (ascii "project-init") rest = pr
    at refused told
  split_ifs at refused with failed many
  · cases refused
    intro none_
    rw [ParseResult.Told, failed, none_] at told
    cases told
  · cases refused
    exact List.cons_ne_nil _ _

end Specs

section Imports

/-- The last of the options that are not empty decides. -/
theorem foldl_considerImport (candidates : List (InputFormat × Bytes)) (choice : ImportChoice) :
    candidates.foldl considerImport choice =
      let found := candidates.filter (·.2 ≠ [])
      let last := found.getLast?.getD (choice.format, choice.path)
      ⟨last.1, last.2, choice.count + found.length⟩ := by
  induction candidates generalizing choice with
  | nil => rfl
  | cons candidate rest ih =>
      rw [List.foldl_cons, ih, considerImport]
      by_cases empty : candidate.2 = []
      · rw [if_pos empty, List.filter_cons_of_neg (by simpa using empty)]
      · rw [if_neg empty, List.filter_cons_of_pos (by simpa using empty)]
        dsimp only
        rw [List.getLast?_cons, List.length_cons, Option.getD_some, Nat.add_assoc,
          Nat.add_comm 1]

end Imports

section Settings

variable (settings : List Setting)

/-- The value of an option that is given once at most. -/
def valueOf (id : Bytes) : Bytes := (valuesOf settings id).headD []

/-- The imports that are asked for. -/
def importsOf : List (InputFormat × Bytes) :=
  (importOptions.map fun option => (option.1, valueOf settings option.2)).filter (·.2 ≠ [])

/-- No option but `--option` is given twice, and one document is imported at most. -/
structure Buildable : Prop where
  once : ∀ spec ∈ buildSpecs, spec.kind = .option → (valuesOf settings spec.id).length ≤ 1
  single : (importsOf settings).length ≤ 1

/-- The build that settings ask for. -/
def askedBuild : BuildArguments :=
  let source := (importsOf settings).headD (.lines, valueOf settings (ascii "input"))
  let output := (valuesOf settings (ascii "output")).headD (ascii "-")
  { inputPath := CString.ofBytes source.2
    outputPath := CString.ofBytes output
    method := CString.ofBytes (valueOf settings (ascii "method"))
    target := CString.ofBytes (valueOf settings (ascii "target"))
    options := (valuesOf settings (ascii "option")).map CString.ofBytes
    inputFormat := source.1
    schemaPath := CString.ofBytes (valueOf settings (ascii "schema"))
    schemaDumpPath := CString.ofBytes (valueOf settings (ascii "dump-json-schema")) }

theorem firstValue_answer (specs : List ArgumentSpec) (positionals : List Bytes) (id : Bytes) :
    firstValue (answer specs settings positionals) id =
      (valuesOf settings id).headD ((defaultOf specs id).getD []) := by
  unfold firstValue answer
  dsimp only
  cases valuesOf settings id with
  | nil => cases defaultOf specs id <;> rfl
  | cons value more => rfl

theorem firstValue_build (id : Bytes) (plain : defaultOf buildSpecs id = none) :
    firstValue (answer buildSpecs settings []) id = valueOf settings id := by
  rw [firstValue_answer, plain]
  rfl

/-- Of options and repeatable options that need not be given, every line is permitted that gives
no option twice. -/
theorem permitted_iff_once (specs : List ArgumentSpec)
    (optional : ∀ spec ∈ specs, spec.required = false)
    (kinds : ∀ spec ∈ specs, spec.kind = .option ∨ spec.kind = .repeatable)
    (free : specs.countP (·.kind = .positional) = 0) (positionals : List Bytes) :
    Permitted specs settings positionals ↔
      ∀ spec ∈ specs, spec.kind = .option → (valuesOf settings spec.id).length ≤ 1 := by
  constructor
  · exact fun permitted spec listed kind => permitted.once spec listed (.inr (.inl kind))
  · intro once
    refine ⟨?_, ?_, ?_⟩
    · intro spec listed required
      rw [optional spec listed] at required
      cases required
    · rintro spec listed kind
      rcases kinds spec listed with option | repeatable
      · exact once spec listed option
      · rw [repeatable] at kind
        simp at kind
    · rw [Fits, free]
      exact ⟨Nat.zero_le _, .inr (.inr rfl)⟩

theorem permitted_build_iff (positionals : List Bytes) :
    Permitted buildSpecs settings positionals ↔
      ∀ spec ∈ buildSpecs, spec.kind = .option → (valuesOf settings spec.id).length ≤ 1 :=
  permitted_iff_once settings buildSpecs (by decide) (by decide) (by decide) positionals

theorem chooseImport_answer :
    chooseImport (answer buildSpecs settings []) =
      ⟨((importsOf settings).getLast?.getD (.lines, valueOf settings (ascii "input"))).1,
        ((importsOf settings).getLast?.getD (.lines, valueOf settings (ascii "input"))).2,
        (importsOf settings).length⟩ := by
  have plain : ∀ option ∈ importOptions, defaultOf buildSpecs option.2 = none := by decide
  have values : (importOptions.map fun option =>
      (option.1, firstValue (answer buildSpecs settings []) option.2)) =
      importOptions.map fun option => (option.1, valueOf settings option.2) := by
    apply List.map_congr_left
    intro option member
    rw [firstValue_build settings option.2 (plain option member)]
  rw [chooseImport, values, foldl_considerImport, firstValue_build settings _ (by decide)]
  dsimp only
  rw [Nat.zero_add]
  rfl

theorem headD_eq_getLast? {α : Type} (items : List α) (few : items.length ≤ 1) (default : α) :
    items.getLast?.getD default = items.headD default := by
  rcases items with _ | ⟨item, _ | ⟨other, rest⟩⟩
  · rfl
  · rfl
  · exact absurd few (by simp)

theorem callArguments_answer (few : (importsOf settings).length ≤ 1) :
    callArguments (answer buildSpecs settings []) (chooseImport (answer buildSpecs settings [])) =
      askedBuild settings := by
  have output : firstValue (answer buildSpecs settings []) (ascii "output") =
      (valuesOf settings (ascii "output")).headD (ascii "-") := by
    rw [firstValue_answer]
    rfl
  have options : ((answer buildSpecs settings []).values (ascii "option")).getD [] =
      valuesOf settings (ascii "option") := by
    have plain : defaultOf buildSpecs (ascii "option") = none := by decide
    rw [answer]
    dsimp only
    rw [plain]
    split_ifs with nothing
    · exact nothing.symm
    · rfl
  rw [chooseImport_answer, headD_eq_getLast? _ few, callArguments, askedBuild, output, options,
    firstValue_build _ (ascii "method") (by decide),
    firstValue_build _ (ascii "target") (by decide),
    firstValue_build _ (ascii "schema") (by decide),
    firstValue_build _ (ascii "dump-json-schema") (by decide)]

/-- What the branch makes of settings that pass the parser. -/
theorem buildArguments_of_line {rest : List Bytes} {positionals : List Bytes}
    (line : Line buildSpecs rest settings positionals)
    (permitted : Permitted buildSpecs settings positionals) :
    buildArguments rest =
      if positionals ≠ [] then .error [ascii "unexpected positional argument(s)"]
      else if 1 < (importsOf settings).length then .error [tooManyImports]
      else .ok (askedBuild settings) := by
  have parsed := ((buildParse_iff rest _).mpr ⟨settings, positionals, line, permitted, rfl⟩).1
  have accepted : ¬ (answer buildSpecs settings positionals).ok = false := Bool.noConfusion
  simp only [buildArguments, parsed, if_neg accepted]
  by_cases extra : positionals = []
  · subst extra
    have count : (chooseImport (answer buildSpecs settings [])).count =
        (importsOf settings).length := by rw [chooseImport_answer]
    have none_ : ¬ (answer buildSpecs settings []).positionals ≠ [] := not_not.mpr rfl
    rw [if_neg none_, if_neg (not_not.mpr rfl), count]
    split_ifs with many
    · rfl
    · rw [callArguments_answer settings (Nat.not_lt.mp many)]
  · have some_ : (answer buildSpecs settings positionals).positionals ≠ [] := extra
    rw [if_pos some_, if_pos extra]

theorem buildArguments_accepts {rest : List Bytes} (line : Line buildSpecs rest settings [])
    (buildable : Buildable settings) : buildArguments rest = .ok (askedBuild settings) := by
  rw [buildArguments_of_line settings line ((permitted_build_iff settings []).mpr buildable.once),
    if_neg (by simp), if_neg (Nat.not_lt.mpr buildable.single)]

theorem buildArguments_accepted {rest : List Bytes} {args : BuildArguments}
    (accepted : buildArguments rest = .ok args) :
    ∃ settings, Line buildSpecs rest settings [] ∧ Buildable settings ∧
      args = askedBuild settings := by
  have ok : ((registryOf (ascii "build-run") buildSpecs).parse (ascii "build-run") rest).ok =
      true := by
    by_contra refused
    rw [buildArguments] at accepted
    simp only [if_pos (Bool.eq_false_iff.mpr refused), reduceCtorEq] at accepted
  obtain ⟨settings, positionals, line, permitted, -⟩ := (buildParse_iff rest _).mp ⟨rfl, ok⟩
  rw [buildArguments_of_line settings line permitted] at accepted
  split_ifs at accepted with extra many
  cases accepted
  rw [not_not.mp extra] at line
  exact ⟨settings, line, ⟨(permitted_build_iff settings _).mp permitted, Nat.not_lt.mp many⟩, rfl⟩

/-- The arguments of `build run` are accepted exactly when they are the options of the command
with their values, in any order and written in any of the ways to write them, and ask for one
build. -/
theorem buildArguments_iff (rest : List Bytes) (args : BuildArguments) :
    buildArguments rest = .ok args ↔
      ∃ settings, Line buildSpecs rest settings [] ∧ Buildable settings ∧
        args = askedBuild settings := by
  constructor
  · exact buildArguments_accepted
  · rintro ⟨settings, line, buildable, rfl⟩
    exact buildArguments_accepts settings line buildable

/-- The arguments of `project init` are accepted exactly when they are `--add-build` options, any
number of them, with one directory at most between them. -/
theorem initArguments_iff (rest : List Bytes) (asked : Bytes × List Bytes) :
    initArguments rest = .ok asked ↔
      ∃ settings positionals, Line initSpecs rest settings positionals ∧
        positionals.length ≤ 1 ∧
        asked = (positionals.headD [], valuesOf settings (ascii "add-build")) := by
  have several : ∀ spec ∈ initSpecs, spec.kind ≠ .option := by decide
  have plain : defaultOf initSpecs (ascii "add-build") = none := by decide
  have values (settings : List Setting) (positionals : List Bytes) :
      ((answer initSpecs settings positionals).values (ascii "add-build")).getD [] =
        valuesOf settings (ascii "add-build") := by
    rw [answer]
    dsimp only
    rw [plain]
    split_ifs with nothing
    · exact nothing.symm
    · rfl
  constructor
  · intro accepted
    have ok : ((registryOf (ascii "project-init") initSpecs).parse (ascii "project-init") rest).ok =
        true := by
      by_contra refused
      rw [initArguments] at accepted
      simp only [if_pos (Bool.eq_false_iff.mpr refused), reduceCtorEq] at accepted
    obtain ⟨settings, positionals, line, -, parsed⟩ := (initParse_iff rest _).mp ⟨rfl, ok⟩
    have passed : ¬ (answer initSpecs settings positionals).ok = false := Bool.noConfusion
    simp only [initArguments, parsed, if_neg passed] at accepted
    split_ifs at accepted with extra
    cases accepted
    refine ⟨settings, positionals, line, Nat.not_lt.mp extra, ?_⟩
    rw [values]
    rfl
  · rintro ⟨settings, positionals, line, few, rfl⟩
    have permitted : Permitted initSpecs settings positionals :=
      (permitted_iff_once settings initSpecs (by decide) (by decide) (by decide) positionals).mpr
        fun spec listed kind => absurd kind (several spec listed)
    have parsed := ((initParse_iff rest _).mpr ⟨settings, positionals, line, permitted, rfl⟩).1
    have passed : ¬ (answer initSpecs settings positionals).ok = false := Bool.noConfusion
    have few : ¬ 1 < (answer initSpecs settings positionals).positionals.length :=
      Nat.not_lt.mpr few
    simp only [initArguments, parsed, if_neg passed, if_neg few, values]
    rfl

theorem Buildable.of_values {settings others : List Setting}
    (same : valuesOf others = valuesOf settings) (buildable : Buildable settings) :
    Buildable others := by
  constructor
  · rw [same]
    exact buildable.once
  · have single := buildable.single
    unfold importsOf valueOf at single ⊢
    rw [same]
    exact single

theorem valuesOf_perm {settings others : List Setting} (perm : others.Perm settings) (id : Bytes) :
    (valuesOf others id).Perm (valuesOf settings id) :=
  (perm.filter _).map _

/-- Settings in another order give the same values, when only those of `--option` are several. -/
theorem Buildable.values_perm {settings others : List Setting} (buildable : Buildable settings)
    (listed : ∀ setting ∈ settings, ∃ spec ∈ buildSpecs, setting.1 = spec.id)
    (perm : others.Perm settings)
    (options : valuesOf others (ascii "option") = valuesOf settings (ascii "option")) :
    valuesOf others = valuesOf settings := by
  have kinds : ∀ spec ∈ buildSpecs, spec.kind = .option ∨ spec.id = ascii "option" := by decide
  have same (id : Bytes) (few : (valuesOf settings id).length ≤ 1) :
      valuesOf others id = valuesOf settings id := by
    have perm := valuesOf_perm perm id
    rcases Nat.le_one_iff_eq_zero_or_eq_one.mp few with none_ | one
    · rw [List.length_eq_zero_iff.mp none_] at perm ⊢
      exact perm.eq_nil
    · obtain ⟨value, single⟩ := List.length_eq_one_iff.mp one
      rw [single] at perm ⊢
      exact List.perm_singleton.mp perm
  funext id
  by_cases known : ∃ spec ∈ buildSpecs, spec.id = id
  · obtain ⟨spec, member, rfl⟩ := known
    rcases kinds spec member with kind | option
    · exact same _ (buildable.once spec member kind)
    · rw [option]
      exact options
  · apply same
    have none_ : valuesOf settings id = [] := by
      rw [valuesOf, List.map_eq_nil_iff, List.filter_eq_nil_iff]
      intro setting member here
      obtain ⟨spec, inside, found⟩ := listed setting member
      exact known ⟨spec, inside, found.symm.trans (of_decide_eq_true here)⟩
    rw [none_]
    exact Nat.zero_le 1

theorem buildArguments_of_perm {first second : List Bytes} {settings others : List Setting}
    (line : Line buildSpecs first settings []) (other : Line buildSpecs second others [])
    (perm : others.Perm settings)
    (options : valuesOf others (ascii "option") = valuesOf settings (ascii "option"))
    (args : BuildArguments) (accepted : buildArguments first = .ok args) :
    buildArguments second = .ok args := by
  obtain ⟨taken, own, buildable, rfl⟩ := buildArguments_accepted accepted
  have buildable := buildable.of_values (buildSpecs_valued.line_values own line)
  have same := buildable.values_perm line.listed perm options
  have values := same.trans (buildSpecs_valued.line_values own line)
  rw [buildArguments_accepts others other (buildable.of_values same)]
  unfold askedBuild importsOf valueOf
  rw [values]

/-- Neither the order of the options of a build shows in it, apart from that among `--option`, nor
the way in which they are written. -/
theorem buildArguments_shuffled (first second : List Bytes) (settings others : List Setting)
    (line : Line buildSpecs first settings []) (other : Line buildSpecs second others [])
    (perm : others.Perm settings)
    (options : valuesOf others (ascii "option") = valuesOf settings (ascii "option"))
    (args : BuildArguments) :
    buildArguments first = .ok args ↔ buildArguments second = .ok args :=
  ⟨buildArguments_of_perm line other perm options args,
    buildArguments_of_perm other line perm.symm options.symm args⟩

end Settings

section Samples

theorem input_listed : optionSpec "input" ["--input", "-i"] ∈ buildSpecs := by decide

theorem option_listed : repeatableSpec "option" ["--option"] ∈ buildSpecs := by decide

/-- `-i keys.txt --option a=1`. -/
theorem separateLine :
    Line buildSpecs [ascii "-i", ascii "keys.txt", ascii "--option", ascii "a=1"]
      [(ascii "input", ascii "keys.txt"), (ascii "option", ascii "a=1")] [] :=
  .separate input_listed (by decide) _ (.separate option_listed (by decide) _ .done)

/-- `--option=a=1 -ikeys.txt`. -/
theorem joinedLine :
    Line buildSpecs [ascii "--option=a=1", ascii "-ikeys.txt"]
      [(ascii "option", ascii "a=1"), (ascii "input", ascii "keys.txt")] [] :=
  Line.inline option_listed (by decide : ascii "--option" ∈ _) (by decide) (ascii "a=1")
    (.attached input_listed (by decide : ascii "-i" ∈ _) (by decide) (by decide) .done)

theorem buildArguments_shuffled_sample :
    buildArguments [ascii "--option=a=1", ascii "-ikeys.txt"] =
      .ok (askedBuild [(ascii "input", ascii "keys.txt"), (ascii "option", ascii "a=1")]) :=
  (buildArguments_shuffled _ _ _ _ separateLine joinedLine (.swap _ _ []) rfl _).mp
    (buildArguments_accepts _ separateLine ⟨by decide, by decide⟩)

end Samples

end Nuperf.Cli

import Nuperf.BuildTrace
import Nuperf.MainRun

set_option autoImplicit false

namespace Nuperf.Cli

open ByteString Klyspec CallProgram

section Resolution

variable {docs : CommandTable} {path : Bytes} {words : List Bytes}

/-- A command that takes more words than any other is the answer. -/
theorem resolveCommandPath_of_selects
    (documented : ∀ path ∈ docs.paths, ∃ words, Documented path words) (program first : CString)
    (others : List CString) (rest : List Bytes)
    (tokens : (first :: others).map CString.bytes = words ++ rest)
    (selects : Selects ((first :: others).map CString.bytes) docs path words)
    (most : ∀ path' words', Selects ((first :: others).map CString.bytes) docs path' words' →
      path' ≠ path → words'.length < words.length) :
    resolveCommandPath docs (program :: first :: others) = ⟨path, rest⟩ := by
  have answers := resolveCommandPath_longest docs program first others documented
  generalize resolveCommandPath docs (program :: first :: others) = answer at answers
  obtain ⟨commandPath, remaining⟩ := answer
  obtain ⟨taken, chosen, whole, longest⟩ := answers.longest ⟨path, words, selects⟩
  have same : commandPath = path := by
    by_contra other
    exact Nat.lt_asymm (most _ _ chosen other) (longest path words selects (Ne.symm other))
  dsimp only at same chosen whole
  subst same
  have spelled : taken = words := chosen.documented.split.symm.trans selects.documented.split
  rw [spelled, ← List.map_cons, tokens, List.append_cancel_left_eq] at whole
  rw [whole]

/-- The words that lead to `build run`, its alias among them. What follows the alias must not make
it the longer path. -/
def SpellsBuild (front rest : List Bytes) : Prop :=
  front = [ascii "build", ascii "run"] ∨
    (front = [ascii "build"] ∧ rest.head? ≠ some (ascii "run"))

theorem SpellsBuild.selects {front rest : List Bytes} (spells : SpellsBuild front rest) :
    Selects (front ++ rest) makeDocs (joinWords front) front := by
  rcases spells with rfl | ⟨rfl, -⟩
  · exact ⟨by decide, by decide, ⟨by decide, by decide, rfl⟩, List.prefix_append _ _⟩
  · exact ⟨by decide, by decide, ⟨by decide, by decide, rfl⟩, List.prefix_append _ _⟩

/-- Two paths begin with `build`. The longer one needs `run` behind it. -/
theorem SpellsBuild.longest {front rest words : List Bytes} {path : Bytes}
    (spells : SpellsBuild front rest) (rival : Selects (front ++ rest) makeDocs path words)
    (apart : path ≠ joinWords front) : words.length < front.length := by
  have paths : ∀ path ∈ makeDocs.paths, (splitWords path).head? = some (ascii "build") →
      path = ascii "build" ∨ path = ascii "build run" := by decide
  have begins : (splitWords path).head? = some (ascii "build") := by
    rw [rival.documented.split]
    rcases words with _ | ⟨word, words⟩
    · exact absurd rfl rival.documented.some_
    · obtain ⟨behind, whole⟩ := rival.begins
      rcases spells with rfl | ⟨rfl, -⟩
      · exact congrArg some (List.cons.inj whole).1
      · exact congrArg some (List.cons.inj whole).1
  rcases spells with rfl | ⟨rfl, other⟩
  · rcases paths path rival.listed begins with rfl | rfl
    · rw [← rival.documented.split]
      decide
    · exact absurd rfl apart
  · rcases paths path rival.listed begins with rfl | rfl
    · exact absurd rfl apart
    · have two : words = [ascii "build", ascii "run"] := rival.documented.split.symm
      obtain ⟨behind, whole⟩ := rival.begins
      rw [two] at whole
      exact absurd (congrArg List.head? (List.cons.inj whole).2.symm) other

theorem resolveCommandPath_build (program : CString) (front rest : List CString)
    (spells : SpellsBuild (front.map CString.bytes) (rest.map CString.bytes)) :
    resolveCommandPath makeDocs (program :: (front ++ rest)) =
      ⟨joinWords (front.map CString.bytes), rest.map CString.bytes⟩ := by
  have some_ : front ++ rest ≠ [] := by
    intro nothing
    rw [(List.append_eq_nil_iff.mp nothing).1] at spells
    rcases spells with two | ⟨one, -⟩
    · cases two
    · cases one
  obtain ⟨first, others, shape⟩ := List.exists_cons_of_ne_nil some_
  have tokens : (first :: others).map CString.bytes =
      front.map CString.bytes ++ rest.map CString.bytes := by rw [← shape, List.map_append]
  rw [shape]
  apply resolveCommandPath_of_selects makeDocs_documented program first others _ tokens
  · rw [tokens]
    exact spells.selects
  · rw [tokens]
    exact fun path words rival apart => spells.longest rival apart

end Resolution

theorem runCommand_build (host : Host) (path : Bytes) (rest : List Bytes) (args : BuildArguments)
    (known : path = ascii "build run" ∨ path = ascii "build")
    (accepted : buildArguments rest = .ok args) :
    runCommand host ⟨path, rest⟩ = callBuildRun host args >>= shutDown := by
  have others : path ≠ ascii "version" ∧
      ¬ (path = ascii "registry methods list" ∨ path = ascii "list-methods") ∧
      ¬ (path = ascii "registry targets list" ∨ path = ascii "list-targets") := by
    rcases known with rfl | rfl <;> decide
  rw [runCommand]
  dsimp only
  rw [if_neg others.1, if_neg others.2.1, if_neg others.2.2, if_pos known, accepted]

def sampleSettings : List Setting :=
  [(ascii "input", ascii "keys.txt"), (ascii "option", ascii "a=1")]

end Nuperf.Cli

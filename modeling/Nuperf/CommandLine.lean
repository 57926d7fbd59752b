import Nuperf.Library.ByteString
import Nuperf.Library.RunningBest

set_option autoImplicit false

namespace Nuperf

open ByteString RunningBest

section Words

/-- The character that words stand apart by. -/
def blank : UInt8 := 0x20

/-- `if (!cur.empty()) out.push_back(cur)`. -/
def pushWord (out : List Bytes) (cur : Bytes) : List Bytes :=
  if cur.isEmpty then out else out ++ [cur]

/-- The loop of `split_words`, with what follows it. -/
def splitLoop : List Bytes → Bytes → Bytes → List Bytes
  | out, cur, [] => pushWord out cur
  | out, cur, c :: rest =>
      if c = blank then splitLoop (pushWord out cur) [] rest
      else splitLoop out (cur ++ [c]) rest

def splitWords (path : Bytes) : List Bytes := splitLoop [] [] path

/-- `join_words`: every word but the first has a space pushed before it. -/
def joinWords : List Bytes → Bytes
  | [] => []
  | word :: rest => word ++ rest.flatMap (blank :: ·)

end Words

/-- The keys of the map that `docs` returns, in the order of an iteration over it. -/
structure CommandTable where
  paths : List Bytes
  distinct : paths.Nodup

/-- `make_docs`. -/
def makeDocs : CommandTable where
  paths :=
    [ascii "version", ascii "list-methods", ascii "list-targets", ascii "build",
     ascii "registry methods list", ascii "registry targets list", ascii "build run",
     ascii "project init", ascii "help"]
  distinct := by decide

/-- `ParsedCommand`. -/
structure ParsedCommand where
  commandPath : Bytes := []
  rest : List Bytes := []
  deriving DecidableEq

/-- The body of the loop over `docs()`, on `best_len` and `out.command_path`. -/
def considerPath (tokens : List Bytes) (best : Nat × Bytes) (path : Bytes) : Nat × Bytes :=
  if path = ascii "help" then best
  else
    let words := splitWords path
    if words.isEmpty || decide (tokens.length < words.length) then best
    -- The loop over `i` compares the words with as many tokens.
    else if words.isPrefixOf tokens && decide (best.1 < words.length) then (words.length, path)
    else best

/-- `resolve_command_path`. -/
def resolveCommandPath (docs : CommandTable) (argv : List CString) : ParsedCommand :=
  if argv.length < 2 then {}
  else
    let tokens := argv.tail.map CString.bytes
    let best := docs.paths.foldl (considerPath tokens) (0, [])
    if best.1 = 0 then ⟨tokens.headD [], tokens.tail⟩
    else ⟨best.2, tokens.drop best.1⟩

section Splitting

/-- What a command path is made of. -/
def IsWord (word : Bytes) : Prop := word ≠ [] ∧ blank ∉ word

instance (word : Bytes) : Decidable (IsWord word) :=
  inferInstanceAs (Decidable (word ≠ [] ∧ blank ∉ word))

theorem splitLoop_word (out : List Bytes) (cur word rest : Bytes) (whole : blank ∉ word) :
    splitLoop out cur (word ++ rest) = splitLoop out (cur ++ word) rest := by
  induction word generalizing cur with
  | nil => rw [List.nil_append, List.append_nil]
  | cons c word ih =>
      have letter : c ≠ blank := fun same => whole (by simp [same])
      have more : blank ∉ word := fun member => whole (List.mem_cons_of_mem _ member)
      rw [List.cons_append, splitLoop, if_neg letter, ih (cur ++ [c]) more, List.append_assoc,
        List.singleton_append]

theorem splitLoop_flatMap (words : List Bytes) (proper : ∀ word ∈ words, IsWord word)
    (out : List Bytes) (cur : Bytes) (begun : cur ≠ []) :
    splitLoop out cur (words.flatMap (blank :: ·)) = out ++ cur :: words := by
  have pushed : pushWord out cur = out ++ [cur] :=
    if_neg (by rw [List.isEmpty_iff]; exact begun)
  induction words generalizing out cur with
  | nil => rw [List.flatMap_nil, splitLoop, pushed]
  | cons word words ih =>
      obtain ⟨some_, whole⟩ := proper word (by simp)
      have next : pushWord (out ++ [cur]) word = out ++ [cur] ++ [word] :=
        if_neg (by rw [List.isEmpty_iff]; exact some_)
      rw [List.flatMap_cons, List.cons_append, splitLoop, if_pos rfl, pushed,
        splitLoop_word _ _ _ _ whole, List.nil_append,
        ih (fun other member => proper other (List.mem_cons_of_mem _ member)) _ _ some_ next,
        List.append_assoc, List.singleton_append]

/-- Words that are joined come apart again. -/
theorem splitWords_joinWords (words : List Bytes) (proper : ∀ word ∈ words, IsWord word) :
    splitWords (joinWords words) = words := by
  cases words with
  | nil => rfl
  | cons word words =>
      obtain ⟨some_, whole⟩ := proper word (by simp)
      rw [joinWords, splitWords, splitLoop_word _ _ _ _ whole, List.nil_append,
        splitLoop_flatMap words (fun other member => proper other (List.mem_cons_of_mem _ member))
          [] word some_, List.nil_append]

theorem pushWord_proper (out : List Bytes) (cur : Bytes) (proper : ∀ word ∈ out, IsWord word)
    (whole : blank ∉ cur) : ∀ word ∈ pushWord out cur, IsWord word := by
  unfold pushWord
  split_ifs with empty
  · exact proper
  · intro word member
    rcases List.mem_append.mp member with before | here
    · exact proper word before
    · rw [List.mem_singleton.mp here]
      exact ⟨fun nothing => empty (List.isEmpty_iff.mpr nothing), whole⟩

theorem splitLoop_proper (path : Bytes) (out : List Bytes) (cur : Bytes)
    (proper : ∀ word ∈ out, IsWord word) (whole : blank ∉ cur) :
    ∀ word ∈ splitLoop out cur path, IsWord word := by
  induction path generalizing out cur with
  | nil => exact pushWord_proper out cur proper whole
  | cons c rest ih =>
      rw [splitLoop]
      split_ifs with apart
      · exact ih (pushWord out cur) [] (pushWord_proper out cur proper whole) (by simp)
      · apply ih out (cur ++ [c]) proper
        intro member
        rcases List.mem_append.mp member with before | here
        · exact whole before
        · exact apart (List.mem_singleton.mp here).symm

theorem splitWords_proper (path : Bytes) : ∀ word ∈ splitWords path, IsWord word :=
  splitLoop_proper path [] [] (by simp) (by simp)

/-- A path of the table: non-empty words joined by single spaces. -/
structure Documented (path : Bytes) (words : List Bytes) : Prop where
  some_ : words ≠ []
  proper : ∀ word ∈ words, IsWord word
  joined : path = joinWords words

theorem Documented.split {path : Bytes} {words : List Bytes} (documented : Documented path words) :
    splitWords path = words := by
  rw [documented.joined, splitWords_joinWords words documented.proper]

theorem documented_iff (path : Bytes) :
    (∃ words, Documented path words) ↔
      splitWords path ≠ [] ∧ joinWords (splitWords path) = path := by
  constructor
  · rintro ⟨words, documented⟩
    rw [documented.split]
    exact ⟨documented.some_, documented.joined.symm⟩
  · rintro ⟨some_, joined⟩
    exact ⟨splitWords path, some_, splitWords_proper path, joined.symm⟩

theorem makeDocs_documented : ∀ path ∈ makeDocs.paths, ∃ words, Documented path words := by
  simp only [documented_iff]
  decide

end Splitting

section Resolution

variable (tokens : List Bytes)

/-- The number of words that a path takes of the arguments. -/
def pathScore (path : Bytes) : Nat :=
  if path = ascii "help" then 0
  else if (splitWords path).isPrefixOf tokens then (splitWords path).length
  else 0

theorem considerPath_eq : considerPath tokens = improve (pathScore tokens) := by
  funext best path
  unfold considerPath improve pathScore
  by_cases help : path = ascii "help"
  · rw [if_pos help, if_pos help, if_neg (Nat.not_lt_zero best.1)]
  rw [if_neg help, if_neg help]
  dsimp only
  by_cases begins : (splitWords path).isPrefixOf tokens = true
  · have short := (List.isPrefixOf_iff_prefix.mp begins).length_le
    rw [if_pos begins, begins, Bool.true_and, decide_eq_false (Nat.not_lt.mpr short),
      Bool.or_false]
    by_cases empty : splitWords path = []
    · rw [empty, if_pos List.isEmpty_nil, List.length_nil, if_neg (Nat.not_lt_zero best.1)]
    · rw [if_neg (by rw [List.isEmpty_iff]; exact empty)]
      simp only [decide_eq_true_eq]
  · rw [if_neg begins, if_neg (Nat.not_lt_zero best.1), Bool.eq_false_iff.mpr begins,
      Bool.false_and, if_neg Bool.false_ne_true, ite_self]

/-- A path other than `help` whose words the arguments begin with. -/
structure Selects (docs : CommandTable) (path : Bytes) (words : List Bytes) : Prop where
  listed : path ∈ docs.paths
  command : path ≠ ascii "help"
  documented : Documented path words
  begins : words <+: tokens

variable {tokens} {docs : CommandTable}

theorem Selects.score {path : Bytes} {words : List Bytes}
    (selects : Selects tokens docs path words) : pathScore tokens path = words.length := by
  have begins := List.isPrefixOf_iff_prefix.mpr selects.begins
  rw [pathScore, if_neg selects.command, selects.documented.split, if_pos begins]

theorem Selects.score_pos {path : Bytes} {words : List Bytes}
    (selects : Selects tokens docs path words) : 0 < pathScore tokens path := by
  rw [selects.score]
  exact List.length_pos_iff.mpr selects.documented.some_

variable (documented : ∀ path ∈ docs.paths, ∃ words, Documented path words)

include documented

theorem selects_of_score {path : Bytes} (listed : path ∈ docs.paths)
    (scores : 0 < pathScore tokens path) : ∃ words, Selects tokens docs path words := by
  obtain ⟨words, spelled⟩ := documented path listed
  unfold pathScore at scores
  split_ifs at scores with help begins
  · omega
  · rw [spelled.split] at begins
    exact ⟨words, listed, help, spelled, List.isPrefixOf_iff_prefix.mp begins⟩
  · omega

/-- Two paths that take as many words take the same words, and so are one path. -/
theorem score_apart (left : Bytes) (here : left ∈ docs.paths) (right : Bytes)
    (there : right ∈ docs.paths) (scores : 0 < pathScore tokens left)
    (same : pathScore tokens left = pathScore tokens right) : left = right := by
  obtain ⟨words, selects⟩ := selects_of_score documented here scores
  obtain ⟨words', selects'⟩ := selects_of_score documented there (same ▸ scores)
  have long : words.length = words'.length := by
    rw [← selects.score, ← selects'.score, same]
  have inside := List.prefix_of_prefix_length_le selects.begins selects'.begins (Nat.le_of_eq long)
  have equal : words = words' := inside.eq_of_length long
  rw [selects.documented.joined, selects'.documented.joined, equal]

end Resolution

section Answer

/-- What some arguments are to be taken for. -/
structure LongestCommand (docs : CommandTable) (first : Bytes) (others : List Bytes)
    (answer : ParsedCommand) : Prop where
  longest : (∃ path words, Selects (first :: others) docs path words) →
    ∃ words, Selects (first :: others) docs answer.commandPath words ∧
      words ++ answer.rest = first :: others ∧
      ∀ path words', Selects (first :: others) docs path words' → path ≠ answer.commandPath →
        words'.length < words.length
  otherwise : (¬ ∃ path words, Selects (first :: others) docs path words) →
    answer = ⟨first, others⟩

variable (docs : CommandTable) (program first : CString) (others : List CString)

theorem resolveCommandPath_eq (best : Nat × Bytes)
    (found : search (pathScore ((first :: others).map CString.bytes)) [] docs.paths = best) :
    resolveCommandPath docs (program :: first :: others) =
      if best.1 = 0 then ⟨first.bytes, others.map CString.bytes⟩
      else ⟨best.2, ((first :: others).map CString.bytes).drop best.1⟩ := by
  have enough : ¬ (program :: first :: others).length < 2 := by
    simp only [List.length_cons]
    omega
  rw [resolveCommandPath, if_neg enough, ← found, search, ← considerPath_eq]
  rfl

variable (documented : ∀ path ∈ docs.paths, ∃ words, Documented path words)

include documented

theorem resolveCommandPath_perm (order : CommandTable) (perm : order.paths.Perm docs.paths) :
    resolveCommandPath order (program :: first :: others) =
      resolveCommandPath docs (program :: first :: others) := by
  rw [resolveCommandPath_eq order program first others _ rfl,
    resolveCommandPath_eq docs program first others _ rfl,
    search_perm _ [] perm (score_apart documented)]

theorem resolveCommandPath_longest :
    LongestCommand docs first.bytes (others.map CString.bytes)
      (resolveCommandPath docs (program :: first :: others)) := by
  constructor
  · rintro ⟨path, words, selects⟩
    obtain ⟨best, here, scores, most, found⟩ :=
      search_finds _ [] docs.paths path selects.listed selects.score_pos
    obtain ⟨spelled, chosen⟩ := selects_of_score documented here scores
    rw [resolveCommandPath_eq docs program first others _ found, if_neg (Nat.ne_of_gt scores),
      chosen.score]
    refine ⟨spelled, chosen, List.prefix_iff_eq_append.mp chosen.begins, ?_⟩
    intro path words' rival other
    have least := most path rival.listed
    rw [rival.score, chosen.score] at least
    apply Nat.lt_of_le_of_ne least
    intro same
    apply other
    apply score_apart documented path rival.listed best here rival.score_pos
    rw [rival.score, chosen.score, same]
  · intro nothing
    have low (path : Bytes) (listed : path ∈ docs.paths) :
        pathScore (first.bytes :: others.map CString.bytes) path = 0 := by
      by_contra scores
      obtain ⟨words, selects⟩ := selects_of_score documented listed (Nat.pos_of_ne_zero scores)
      exact nothing ⟨path, words, selects⟩
    rw [resolveCommandPath_eq docs program first others _ (search_fails _ [] docs.paths low)]
    rfl

end Answer

/-- The answer is the longest command that the arguments begin with and the arguments behind it,
in whatever order the table is gone through. -/
theorem resolveCommandPath_answers (docs : CommandTable)
    (documented : ∀ path ∈ docs.paths, ∃ words, Documented path words)
    (program first : CString) (others : List CString) :
    (∀ order : CommandTable, order.paths.Perm docs.paths →
      resolveCommandPath order (program :: first :: others) =
        resolveCommandPath docs (program :: first :: others)) ∧
    LongestCommand docs first.bytes (others.map CString.bytes)
      (resolveCommandPath docs (program :: first :: others)) :=
  ⟨resolveCommandPath_perm docs program first others documented,
    resolveCommandPath_longest docs program first others documented⟩

/-- The same map, gone through from the other end. -/
def reversedDocs : CommandTable where
  paths := makeDocs.paths.reverse
  distinct := List.nodup_reverse.mpr makeDocs.distinct

theorem resolveCommandPath_build_run :
    resolveCommandPath reversedDocs
      [.ofBytes (ascii "nuperf"), .ofBytes (ascii "build"), .ofBytes (ascii "run"),
        .ofBytes (ascii "-i")] = ⟨ascii "build run", [ascii "-i"]⟩ ∧
    LongestCommand makeDocs (ascii "build") [ascii "run", ascii "-i"]
      ⟨ascii "build run", [ascii "-i"]⟩ := by
  obtain ⟨same, longest⟩ := resolveCommandPath_answers makeDocs makeDocs_documented
    (.ofBytes (ascii "nuperf")) (.ofBytes (ascii "build"))
    [.ofBytes (ascii "run"), .ofBytes (ascii "-i")]
  rw [same reversedDocs (List.reverse_perm makeDocs.paths)]
  exact ⟨by decide, longest⟩

end Nuperf

import Nuperf.Library.TextReader

set_option autoImplicit false

/- C source as a reader of bytes sees it: comments and literals, brackets, and the conditional
directives on its lines. Trigraphs and spliced lines stay as they stand. -/
namespace CText

open ByteString TextReader

/-- Where a scan stands: in code, behind a slash there, in a comment, behind a star there, in a
comment that ends with its line, in a literal, or behind a backslash there. -/
inductive Mode
  | code
  | slash
  | comment
  | star
  | lineComment
  | literal (quote : UInt8)
  | escaped (quote : UInt8)
  deriving DecidableEq

/-- What a scan has seen: the code, with a space for each comment and without what its literals
hold, the comments that were ended, and the one it is in. -/
structure Scan where
  mode : Mode := .code
  code : Bytes := []
  comments : List Bytes := []
  comment : Bytes := []

def Scan.step (scan : Scan) (byte : UInt8) : Scan :=
  match scan.mode with
  | .code =>
      if byte = 47 then { scan with mode := .slash }
      else if byte = 34 ∨ byte = 39 then
        { scan with mode := .literal byte, code := scan.code ++ [byte] }
      else { scan with code := scan.code ++ [byte] }
  | .slash =>
      if byte = 42 then { scan with mode := .comment }
      else if byte = 47 then { scan with mode := .lineComment }
      else if byte = 34 ∨ byte = 39 then
        { scan with mode := .literal byte, code := scan.code ++ [47, byte] }
      else { scan with mode := .code, code := scan.code ++ [47, byte] }
  | .comment =>
      { scan with
        mode := if byte = 42 then .star else .comment
        comment := scan.comment ++ [byte] }
  | .star =>
      if byte = 47 then
        { mode := .code, code := scan.code ++ [32]
          comments := scan.comments ++ [scan.comment.dropLast] }
      else
        { scan with
          mode := if byte = 42 then .star else .comment
          comment := scan.comment ++ [byte] }
  | .lineComment =>
      if byte = 10 then { scan with mode := .code, code := scan.code ++ [32, 10] } else scan
  | .literal quote =>
      if byte = quote then { scan with mode := .code, code := scan.code ++ [byte] }
      else if byte = 92 then { scan with mode := .escaped quote }
      else scan
  | .escaped quote => { scan with mode := .literal quote }

def Scan.run (scan : Scan) (text : Bytes) : Scan := text.foldl Scan.step scan

theorem Scan.run_append (scan : Scan) (front back : Bytes) :
    scan.run (front ++ back) = (scan.run front).run back := List.foldl_append

/-- The scan of a whole text. -/
def scan (text : Bytes) : Scan := ({} : Scan).run text

/-- Text without any byte of a kind. -/
def Avoids (kind : UInt8 → Bool) (text : Bytes) : Prop := ∀ byte ∈ text, kind byte = false

instance (kind : UInt8 → Bool) (text : Bytes) : Decidable (Avoids kind text) :=
  decidable_of_iff (text.all (fun byte => !kind byte) = true) (by simp [Avoids, List.all_eq_true])

theorem Avoids.append {kind : UInt8 → Bool} {front back : Bytes} (left : Avoids kind front)
    (right : Avoids kind back) : Avoids kind (front ++ back) := by
  intro byte member
  rcases List.mem_append.mp member with inFront | inBack
  · exact left byte inFront
  · exact right byte inBack

theorem Avoids.take {kind : UInt8 → Bool} {text : Bytes} (avoids : Avoids kind text)
    (count : Nat) : Avoids kind (text.take count) :=
  fun byte member => avoids byte (List.mem_of_mem_take member)

theorem Avoids.mono {kind wider : UInt8 → Bool} {text : Bytes} (avoids : Avoids wider text)
    (within : ∀ byte, kind byte = true → wider byte = true) : Avoids kind text := by
  intro byte member
  by_contra found
  have hit := within byte (by simpa using found)
  rw [avoids byte member] at hit
  cases hit

section Code

variable (code : Bytes) (comments : List Bytes)

/-- A scan between comments and literals. -/
def inCode : Scan := { code := code, comments := comments }

/-- A byte that begins a literal, or may begin a comment. -/
def isDelimiter (byte : UInt8) : Bool := byte == 47 || byte == 34 || byte == 39

theorem run_plain (text : Bytes) (plain : Avoids isDelimiter text) :
    (inCode code comments).run text = inCode (code ++ text) comments := by
  induction text generalizing code with
  | nil => rw [List.append_nil]; rfl
  | cons byte rest ih =>
      have other := plain byte List.mem_cons_self
      simp only [isDelimiter, Bool.or_eq_false_iff, beq_eq_false_iff_ne, and_assoc] at other
      obtain ⟨slash, double, single⟩ := other
      have first : (inCode code comments).step byte = inCode (code ++ [byte]) comments := by
        simp only [Scan.step, inCode, slash, double, single, or_self, ↓reduceIte]
      have later := ih (code ++ [byte]) fun other member =>
        plain other (List.mem_cons_of_mem _ member)
      rw [List.append_assoc, List.singleton_append] at later
      rw [← later, ← first]
      rfl

/-- A literal leaves its quotes. -/
theorem run_literal (quote : UInt8) (content : Bytes) (isQuote : quote = 34 ∨ quote = 39)
    (inside : Avoids (fun byte => byte == quote || byte == 92) content) :
    (inCode code comments).run (quote :: (content ++ [quote])) =
      inCode (code ++ [quote, quote]) comments := by
  have slash : quote ≠ 47 := by
    rcases isQuote with rfl | rfl <;> decide
  have opened : (inCode code comments).step quote =
      { inCode (code ++ [quote]) comments with mode := .literal quote } := by
    simp only [Scan.step, inCode, slash, isQuote, ↓reduceIte]
  have held : Scan.run { inCode (code ++ [quote]) comments with mode := .literal quote } content =
      { inCode (code ++ [quote]) comments with mode := .literal quote } := by
    induction content with
    | nil => rfl
    | cons byte rest ih =>
        have apart := inside byte List.mem_cons_self
        simp only [Bool.or_eq_false_iff, beq_eq_false_iff_ne] at apart
        obtain ⟨other, plain⟩ := apart
        have stays : Scan.step { inCode (code ++ [quote]) comments with mode := .literal quote }
            byte = { inCode (code ++ [quote]) comments with mode := .literal quote } := by
          simp only [Scan.step, other, plain, ↓reduceIte]
        have later := ih fun next member => inside next (List.mem_cons_of_mem _ member)
        rw [Scan.run, List.foldl_cons, stays]
        exact later
  have closed : Scan.run { inCode (code ++ [quote]) comments with mode := .literal quote }
      [quote] = inCode (code ++ [quote, quote]) comments := by
    simp [Scan.run, Scan.step, inCode]
  rw [Scan.run, List.foldl_cons, opened]
  change Scan.run _ (content ++ [quote]) = _
  rw [Scan.run_append, held, closed]

/-- A scan in a comment that has read `text` of it. -/
def inComment (text : Bytes) : Scan where
  mode := if text.getLast? = some 42 then .star else .comment
  code := code
  comments := comments
  comment := text

/-- The text ends no comment. -/
def Unended (text : Bytes) : Prop := ¬ ascii "*/" <:+: text

theorem Unended.within {text inner : Bytes} (unended : Unended text) (inside : inner <:+: text) :
    Unended inner := fun ends => unended (ends.trans inside)

theorem unended_of_starless (text : Bytes) (starless : 42 ∉ text) : Unended text :=
  fun ends => starless (ends.subset (by decide))

/-- Where two texts meet, a comment ends only between a star and a slash. -/
theorem Unended.append {front back : Bytes} (left : Unended front) (right : Unended back)
    (joint : front.getLast? ≠ some 42 ∨ back.head? ≠ some 47) : Unended (front ++ back) := by
  have token : ascii "*/" = [42, 47] := by decide
  rw [Unended, token] at left right ⊢
  rintro ⟨before, after, whole⟩
  rw [List.append_assoc] at whole
  rcases List.append_eq_append_iff.mp whole with ⟨middle, rfl, rest⟩ | ⟨middle, rfl, rest⟩
  · rcases middle with _ | ⟨star, _ | ⟨slash, more⟩⟩
    · exact right ⟨[], after, by simpa using rest⟩
    · simp only [List.cons_append, List.nil_append, List.cons.injEq] at rest
      obtain ⟨rfl, rest⟩ := rest
      rw [← rest] at joint
      simp at joint
    · simp only [List.cons_append, List.nil_append, List.cons.injEq] at rest
      obtain ⟨rfl, rfl, rest⟩ := rest
      exact left ⟨before, more, by simp⟩
  · exact right ⟨middle, after, by rw [rest, List.append_assoc]⟩

theorem run_comment_open (text : Bytes) (unended : Unended text) :
    (inCode code comments).run (ascii "/*" ++ text) = inComment code comments text := by
  induction text using List.reverseRecOn with
  | nil =>
      simp [Scan.run, Scan.step, inCode, inComment, ascii]
  | append_singleton text byte ih =>
      have earlier := ih (unended.within (List.prefix_append text [byte]).isInfix)
      rw [← List.append_assoc, Scan.run_append, earlier]
      -- A slash behind a star would have ended the comment.
      have noSlash : text.getLast? = some 42 → byte ≠ 47 := by
        rintro star rfl
        obtain ⟨front, rfl⟩ := List.getLast?_eq_some_iff.mp star
        exact unended ⟨front, [], by simp [ascii]⟩
      simp only [Scan.run, List.foldl_cons, List.foldl_nil, Scan.step, inComment,
        List.getLast?_append, List.getLast?_singleton, Option.some_or, Option.some.injEq]
      split_ifs <;> simp_all

/-- A comment leaves a space. -/
theorem run_comment (text : Bytes) (unended : Unended text) :
    (inCode code comments).run (ascii "/*" ++ (text ++ ascii "*/")) =
      inCode (code ++ [32]) (comments ++ [text]) := by
  rw [← List.append_assoc, Scan.run_append, run_comment_open code comments text unended]
  have starred : (inComment code comments text).step 42 =
      { inComment code comments (text ++ [42]) with mode := .star } := by
    unfold inComment
    by_cases star : text.getLast? = some 42
    · simp only [star, Scan.step, ↓reduceIte]
      rfl
    · simp only [star, Scan.step, ↓reduceIte]
  have slashed : Scan.step { inComment code comments (text ++ [42]) with mode := .star } 47 =
      inCode (code ++ [32]) (comments ++ [text]) := by
    simp only [Scan.step, inComment, inCode, ↓reduceIte, List.dropLast_concat]
  rw [← slashed, ← starred]
  rfl

theorem inComment_mode (text : Bytes) : (inComment code comments text).mode ≠ .code := by
  unfold inComment
  split_ifs <;> simp

end Code

/-- What an item does to the nesting. -/
inductive Bracket
  | opens
  | closes
  | neither
  deriving DecidableEq

/-- The depth behind a row of brackets. There is none where one is closed that was not opened. -/
def depth : Nat → List Bracket → Option Nat
  | start, [] => some start
  | start, .opens :: rest => depth (start + 1) rest
  | 0, .closes :: _ => none
  | start + 1, .closes :: rest => depth start rest
  | start, .neither :: rest => depth start rest

/-- Every bracket that is opened is closed, and no other. -/
def Nested (brackets : List Bracket) : Prop := depth 0 brackets = some 0

theorem depth_append (start : Nat) (front back : List Bracket) :
    depth start (front ++ back) = (depth start front).bind fun middle => depth middle back := by
  induction front generalizing start with
  | nil => rfl
  | cons bracket rest ih =>
      cases bracket with
      | opens => exact ih (start + 1)
      | closes =>
          cases start with
          | zero => rfl
          | succ start => exact ih start
      | neither =>
          rw [List.cons_append, depth, depth]
          exact ih start

theorem depth_trans {start middle stop : Nat} {front back : List Bracket}
    (first : depth start front = some middle) (second : depth middle back = some stop) :
    depth start (front ++ back) = some stop := by
  rw [depth_append, first]
  exact second

theorem depth_neither (start : Nat) (brackets : List Bracket)
    (none_ : ∀ bracket ∈ brackets, bracket = .neither) : depth start brackets = some start := by
  induction brackets with
  | nil => rfl
  | cons bracket rest ih =>
      rw [none_ bracket List.mem_cons_self, depth]
      exact ih fun other member => none_ other (List.mem_cons_of_mem _ member)

def brace (byte : UInt8) : Bracket :=
  if byte = 123 then .opens else if byte = 125 then .closes else .neither

def isBrace (byte : UInt8) : Bool := byte == 123 || byte == 125

theorem depth_braceless (start : Nat) (text : Bytes) (braceless : Avoids isBrace text) :
    depth start (text.map brace) = some start := by
  apply depth_neither
  intro bracket member
  obtain ⟨byte, inside, rfl⟩ := List.mem_map.mp member
  have other := braceless byte inside
  simp only [isBrace, Bool.or_eq_false_iff, beq_eq_false_iff_ne] at other
  obtain ⟨left, right⟩ := other
  rw [brace, if_neg left, if_neg right]

def isBlank (byte : UInt8) : Bool := byte == 32 || byte == 9

def isWordByte (byte : UInt8) : Bool :=
  (97 ≤ byte && byte ≤ 122) || (65 ≤ byte && byte ≤ 90) || (48 ≤ byte && byte ≤ 57) || byte == 95

/-- What a line does to the nesting of conditional groups. -/
def directive (line : Bytes) : Bracket :=
  match line.dropWhile isBlank with
  | [] => .neither
  | mark :: rest =>
      let word := (rest.dropWhile isBlank).takeWhile isWordByte
      if mark ≠ 35 then .neither
      else if word = ascii "if" ∨ word = ascii "ifdef" ∨ word = ascii "ifndef" then .opens
      else if word = ascii "endif" then .closes
      else .neither

/-- A line without a directive, also where there is a `#` behind something else. -/
theorem directive_neither (line : Bytes) (other : (line.dropWhile isBlank).head? ≠ some 35) :
    directive line = .neither := by
  unfold directive
  cases text : line.dropWhile isBlank with
  | nil => rfl
  | cons mark rest =>
      rw [text] at other
      have apart : mark ≠ 35 := by
        rintro rfl
        exact other rfl
      simp only [apart, ne_eq, not_false_eq_true, ↓reduceIte]

theorem directive_markless (line : Bytes) (markless : 35 ∉ line) : directive line = .neither := by
  apply directive_neither
  intro first
  exact markless ((List.dropWhile_suffix isBlank).subset (List.mem_of_mem_head? first))

/-- A text whose last line is ended. -/
def Ended (text : Bytes) : Prop := text = [] ∨ text.getLast? = some 10

theorem lines_append (front back : Bytes) (ended : Ended front) :
    lines (front ++ back) = lines front ++ lines back := by
  induction front with
  | nil => rfl
  | cons byte rest ih =>
      rw [List.cons_append, lines, lines]
      have restEnded : Ended rest := by
        cases rest with
        | nil => exact .inl rfl
        | cons next rest =>
            rcases ended with none_ | last
            · cases none_
            · exact .inr (by simpa using last)
      rw [ih restEnded]
      split_ifs with newline
      · rfl
      · cases rest with
        | nil =>
            rcases ended with none_ | last
            · cases none_
            · simp at last
              exact absurd last newline
        | cons next rest =>
            have some_ : lines (next :: rest) ≠ [] := by
              rw [lines]
              split_ifs
              · simp
              · cases lines rest <;> simp
            cases shape : lines (next :: rest) with
            | nil => exact absurd shape some_
            | cons line later => rfl

theorem mem_lines (text line : Bytes) (member : line ∈ lines text) : line ⊆ text := by
  induction text generalizing line with
  | nil => cases member
  | cons byte rest ih =>
      rw [lines] at member
      split_ifs at member
      · rcases List.mem_cons.mp member with rfl | later
        · exact List.nil_subset _
        · exact List.subset_cons_of_subset _ (ih line later)
      · cases shape : lines rest with
        | nil =>
            rw [shape] at member
            rw [List.mem_singleton.mp member]
            simp
        | cons first later =>
            rw [shape] at member
            rcases List.mem_cons.mp member with rfl | inside
            · have inner := ih first (by rw [shape]; exact List.mem_cons_self)
              exact List.cons_subset_cons _ inner
            · have inner := ih line (by rw [shape]; exact List.mem_cons_of_mem _ inside)
              exact List.subset_cons_of_subset _ inner

theorem depth_markless (start : Nat) (text : Bytes) (markless : 35 ∉ text) :
    depth start ((lines text).map directive) = some start := by
  apply depth_neither
  intro bracket member
  obtain ⟨line, inside, rfl⟩ := List.mem_map.mp member
  exact directive_markless line fun mark => markless (mem_lines text line inside mark)

theorem depth_lines_append {start middle stop : Nat} {front back : Bytes} (ended : Ended front)
    (first : depth start ((lines front).map directive) = some middle)
    (second : depth middle ((lines back).map directive) = some stop) :
    depth start ((lines (front ++ back)).map directive) = some stop := by
  rw [lines_append front back ended, List.map_append]
  exact depth_trans first second

/-- A text whose comments and literals are all ended, with its braces and its conditional groups
nested. -/
structure Closed (text : Bytes) : Prop where
  ended : (scan text).mode = .code
  braces : Nested ((scan text).code.map brace)
  conditionals : Nested ((lines (scan text).code).map directive)

end CText

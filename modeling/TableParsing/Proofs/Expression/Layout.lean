import Mathlib.Data.List.TakeWhile
import TableParsing.Proofs.Expression.Scanner
import TableParsing.Proofs.Parsing.History
import TableParsing.Proofs.Parsing.Lockstep

/-!
# Text in another layout

Blanks and comments decide nothing but where tokens end. If the texts of the tokens of a source are
written down again in order, with any blanks and comments between them, a scan finds the same tokens
at other places: what comes behind a text does not go on with it, and the `*/` of a comment is the
first one behind its opening. The parser goes in lockstep over both token lists, so the trees are
the same but for their spans.
-/

namespace TableParsing

namespace Expression

/-- What may stand between tokens: any number of blanks, and of comments with no `*/` in their
bodies. -/
inductive Layout : List UInt8 → Prop where
  | nil : Layout []
  | blank {b : UInt8} {rest : List UInt8} (blank : blanks.contains b) (later : Layout rest) :
      Layout (b :: rest)
  | comment {body rest : List UInt8} (closed : ¬ [star, slash] <:+: body) (later : Layout rest) :
      Layout (slash :: star :: (body ++ star :: slash :: rest))

/-- Texts in order, each with layout behind it. Between two texts the layout is not empty. -/
inductive Spaced : List (List UInt8) → List UInt8 → Prop where
  | nil : Spaced [] []
  | cons {text separator bytes : List UInt8} {texts : List (List UInt8)}
      (layout : Layout separator) (apart : texts ≠ [] → separator ≠ [])
      (later : Spaced texts bytes) : Spaced (text :: texts) (text ++ (separator ++ bytes))

/-- Texts joined by layout, with layout in front of the first and behind the last. -/
def Joined (texts : List (List UInt8)) (bytes : List UInt8) : Prop :=
  ∃ leading rest, Layout leading ∧ Spaced texts rest ∧ bytes = leading ++ rest

/-- The texts that a terminal is read from. -/
inductive Spells : Lexeme → List UInt8 → Prop where
  | number {b : UInt8} {run : List UInt8} (begins : kind b = .digit)
      (continues : ∀ d ∈ run, digits.contains d) : Spells .num (b :: run)
  | word {b : UInt8} {run : List UInt8} (begins : kind b = .letter)
      (continues : ∀ d ∈ run, wordBytes.contains d) : Spells .ident (b :: run)
  | sign {b : UInt8} {t : Lexeme} (sign : kind b = .sign t) : Spells t [b]

/-- What follows a text can be told apart from it: it is nothing, a blank or a comment. -/
def Apart (rest : List UInt8) : Prop := ∀ b ∈ rest.head?, kind b = .blank ∨ b = slash

variable {offset : Nat} {rest separator : List UInt8}

section Layouts

theorem kind_of_blank {b : UInt8} (h : blanks.contains b) : kind b = .blank := by
  simpa [(contains_eq b).1] using h

theorem Layout.apart (h : Layout separator) (nonempty : separator ≠ []) (rest : List UInt8) :
    Apart (separator ++ rest) := by
  intro b mem
  cases h with
  | nil => exact absurd rfl nonempty
  | blank blank =>
      obtain rfl := Option.some.inj mem
      exact .inl (kind_of_blank blank)
  | comment =>
      obtain rfl := Option.some.inj mem
      exact .inr rfl

/-- Neither a number nor a word goes on with what is apart from it, and a slash does not open a
comment with it. -/
theorem Apart.head (apart : Apart rest) : ∀ b ∈ rest.head?,
    digits.contains b = false ∧ wordBytes.contains b = false ∧ b ≠ star := by
  have each : ∀ b : UInt8, kind b = .blank ∨ b = slash →
      digits.contains b = false ∧ wordBytes.contains b = false ∧ b ≠ star :=
    forall_byte (by decide +kernel)
  intro b mem
  exact each b (apart b mem)

/-- The body of a comment goes up to the first `*/`. -/
theorem closing?_body {body : List UInt8} (closed : ¬ [star, slash] <:+: body)
    (rest : List UInt8) :
    closing? (body ++ star :: slash :: rest) = some (body.length + 2) := by
  induction body with
  | nil => exact if_pos ⟨rfl, rfl⟩
  | cons b body ih =>
      have continues : ¬ (b = star ∧ (body ++ star :: slash :: rest).head? = some slash) := by
        rintro ⟨rfl, closes⟩
        cases body with
        -- A star that ends the body stands in front of another star.
        | nil => cases closes
        | cons a body =>
            obtain rfl : a = slash := Option.some.inj closes
            exact closed ⟨[], body, rfl⟩
      rw [List.cons_append, closing?_cons continues, ih fun h => closed (h.trans ?_)]
      · rfl
      · exact (List.suffix_cons b body).isInfix

/-- A blank is skipped by itself just as with the blanks behind it. -/
theorem scan_blank {b : UInt8} (blank : kind b = .blank) (offset : Nat) (rest : List UInt8) :
    scan offset (b :: rest) = scan (offset + 1) rest := by
  rw [scan]
  simp only [blank]
  cases rest with
  | nil => rfl
  | cons a rest =>
      by_cases again : blanks.contains a
      -- Both scans take the run of blanks to its end, one of them from a byte later.
      · rw [scan.eq_def (offset + 1)]
        simp only [kind_of_blank again, List.takeWhile_cons_of_pos again,
          List.dropWhile_cons_of_pos again, List.length_cons]
        congr 1
        omega
      · rw [List.takeWhile_cons_of_neg again, List.dropWhile_cons_of_neg again]
        rfl

theorem kind_slash : kind slash = .sign .divide := by decide

/-- A scan goes over layout without a token. -/
theorem scan_layout (layout : Layout separator) (offset : Nat) (rest : List UInt8) :
    scan offset (separator ++ rest) = scan (offset + separator.length) rest := by
  induction layout generalizing offset with
  | nil => rfl
  | @blank b later blank _ ih =>
      rw [List.cons_append, scan_blank (kind_of_blank blank), ih, List.length_cons]
      congr 1
      omega
  | @comment body later closed _ ih =>
      have closing := closing?_body closed (later ++ rest)
      have behind : (body ++ star :: slash :: (later ++ rest)).drop (body.length + 2) =
          later ++ rest := by simp
      simp only [List.cons_append, List.append_assoc]
      rw [scan]
      simp only [kind_slash, List.head?_cons, List.tail_cons, closing, behind, and_self, if_true,
        ih, List.length_cons, List.length_append]
      congr 1
      omega

end Layouts

section Texts

variable {t : Lexeme} {text : List UInt8} {src joined : Source} {bytes : List UInt8}
variable {tokens : List (Token Lexeme)} {texts : List (List UInt8)}

theorem Spells.ne_nil (h : Spells t text) : text ≠ [] := by
  cases h <;> nofun

/-- A run ends where what is apart from it begins. -/
theorem run_append {p : UInt8 → Bool} {run : List UInt8} (continues : ∀ d ∈ run, p d)
    (ends : ∀ b ∈ rest.head?, p b = false) :
    (run ++ rest).takeWhile p = run ∧ (run ++ rest).dropWhile p = rest := by
  rw [List.takeWhile_append_of_pos continues, List.dropWhile_append_of_pos continues]
  cases rest with
  | nil => simp
  | cons b rest => simp [ends b rfl]

/-- In front of what is apart from it, a text is one token. -/
theorem scan_spelled (spells : Spells t text) (apart : Apart rest) (offset : Nat) :
    scan offset (text ++ rest) =
      (scan (offset + text.length) rest).map (⟨t, ⟨offset, offset + text.length⟩⟩ :: ·) := by
  cases spells with
  | number begins continues =>
      obtain ⟨taken, dropped⟩ := run_append continues fun b mem => (apart.head b mem).1
      rw [List.cons_append, scan]
      simp only [begins, taken, dropped, List.length_cons]
  | word begins continues =>
      obtain ⟨taken, dropped⟩ := run_append continues fun b mem => (apart.head b mem).2.1
      rw [List.cons_append, scan]
      simp only [begins, taken, dropped, List.length_cons]
  | sign sign =>
      have alone : ¬ (t = .divide ∧ rest.head? = some star) := by
        rintro ⟨_, opens⟩
        exact (apart.head star opens).2.2 rfl
      rw [List.singleton_append, scan]
      simp only [sign, if_neg alone, List.length_singleton]

/-- A token and its text in a source, which its terminal can be read from. -/
def Shows (src : Source) (token : Token Lexeme) (text : List UInt8) : Prop :=
  token.bytes? src = some text.toArray ∧ Spells token.terminal text

theorem shows_of_drop (spells : Spells t text)
    (remaining : src.toList.drop offset = text ++ rest) :
    Shows src ⟨t, ⟨offset, offset + text.length⟩⟩ text := by
  have length := congrArg List.length remaining
  have positive : 0 < text.length := List.length_pos_iff.mpr spells.ne_nil
  simp only [List.length_drop, List.length_append, Array.length_toList] at length
  have fits : Span.Fits ⟨offset, offset + text.length⟩ src := ⟨by simp, by simp only; omega⟩
  refine ⟨?_, spells⟩
  have taken : (src.extract offset (offset + text.length)).toList = text := by
    rw [Array.toList_extract, List.extract_eq_take_drop, remaining]
    simp
  rw [Token.bytes?, Span.slice?, if_pos fits]
  exact congrArg some (Array.toList_inj.mp taken)

theorem shows_run {b : UInt8} {p : UInt8 → Bool} (spells : Spells t (b :: rest.takeWhile p))
    (remaining : src.toList.drop offset = b :: rest) :
    Shows src ⟨t, ⟨offset, offset + ((rest.takeWhile p).length + 1)⟩⟩ (b :: rest.takeWhile p) := by
  have split : src.toList.drop offset = (b :: rest.takeWhile p) ++ rest.dropWhile p := by
    rw [remaining, List.cons_append, List.takeWhile_append_dropWhile]
  exact shows_of_drop spells split

/-- A scan that finds a token first shows its text, and goes on behind it. -/
theorem exists_texts_cons {stop : Nat} {result : Except LexFailure (List (Token Lexeme))}
    (scanned : result.map (⟨t, ⟨offset, stop⟩⟩ :: ·) = .ok tokens)
    (first : Shows src ⟨t, ⟨offset, stop⟩⟩ text)
    (later : ∀ tokens, result = .ok tokens → ∃ texts, List.Forall₂ (Shows src) tokens texts) :
    ∃ texts, List.Forall₂ (Shows src) tokens texts := by
  cases result with
  | error f => cases scanned
  | ok found =>
      obtain rfl := Except.ok.inj scanned
      obtain ⟨texts, shows⟩ := later found rfl
      exact ⟨text :: texts, .cons first shows⟩

/-- Each token of a scan shows a text. -/
theorem exists_texts (remaining : src.toList.drop offset = bytes) :
    ∀ tokens, scan offset bytes = .ok tokens → ∃ texts, List.Forall₂ (Shows src) tokens texts := by
  fun_induction scan offset bytes with
  | case1 =>
      rintro tokens ⟨rfl⟩
      exact ⟨[], .nil⟩
  | case2 offset b rest blank length ih => exact ih (drop_run _ remaining)
  | case3 offset b rest digit length ih =>
      intro tokens scanned
      have first := shows_run (.number digit fun d mem => List.mem_takeWhile_imp mem) remaining
      exact exists_texts_cons scanned first (ih (drop_run _ remaining))
  | case4 offset b rest letter length ih =>
      intro tokens scanned
      have first := shows_run (.word letter fun d mem => List.mem_takeWhile_imp mem) remaining
      exact exists_texts_cons scanned first (ih (drop_run _ remaining))
  | case5 offset b rest t sign opens n closes ih =>
      apply ih
      rw [← List.drop_drop, ← List.drop_drop, remaining]
      simp
  | case6 =>
      intro tokens scanned
      cases scanned
  | case7 offset b rest t sign alone ih =>
      intro tokens scanned
      have split : src.toList.drop offset = [b] ++ rest := remaining
      have remaining' := drop_byte remaining
      exact exists_texts_cons scanned (shows_of_drop (.sign sign) split) (ih remaining')
  | case8 =>
      intro tokens scanned
      cases scanned

theorem map_bytes_of_shows (shows : List.Forall₂ (Shows src) tokens texts) :
    tokens.map (·.bytes? src) = texts.map (some ·.toArray) := by
  induction shows with
  | nil => rfl
  | cons first _ ih => rw [List.map_cons, List.map_cons, first.1, ih]

/-- Two tokens with the same terminal and the same text, each in its own source. -/
def SameText (src joined : Source) (a b : Token Lexeme) : Prop :=
  a.terminal = b.terminal ∧ a.bytes? src = b.bytes? joined

theorem Spaced.apart (layout : Layout separator) (apart : texts ≠ [] → separator ≠ [])
    (later : Spaced texts bytes) : Apart (separator ++ bytes) := by
  by_cases empty : separator = []
  · cases later with
    | nil => rw [empty]; nofun
    | cons => exact absurd empty (apart nofun)
  · exact layout.apart empty bytes

/-- A scan of spaced texts finds the tokens again. -/
theorem exists_scan_of_spaced (spaced : Spaced texts bytes)
    (shows : List.Forall₂ (Shows src) tokens texts)
    (remaining : joined.toList.drop offset = bytes) :
    ∃ found, scan offset bytes = .ok found ∧ List.Forall₂ (SameText src joined) tokens found := by
  induction spaced generalizing offset tokens with
  | nil =>
      cases shows
      exact ⟨[], by rw [scan], .nil⟩
  | @cons text separator bytes texts layout apart later ih =>
      cases shows with
      | @cons token _ tokens _ shown shows =>
          obtain ⟨read, spells⟩ := shown
          have remaining' :
              joined.toList.drop (offset + text.length + separator.length) = bytes := by
            rw [← List.drop_drop, ← List.drop_drop, remaining, List.drop_left, List.drop_left]
          obtain ⟨found, scanned, same⟩ := ih shows remaining'
          refine ⟨⟨token.terminal, ⟨offset, offset + text.length⟩⟩ :: found, ?_,
            .cons ⟨rfl, ?_⟩ same⟩
          · rw [scan_spelled spells (later.apart layout apart), scan_layout layout, scanned]
            rfl
          · rw [read]
            exact (shows_of_drop spells remaining).1.symm

end Texts

/-- Lexing succeeds exactly if a scan does. -/
theorem result_eq_ok_iff {src : Source} {tokens : TokenList Lexeme} :
    (lexer.lex src).result = .ok tokens ↔ scan 0 src.toList = .ok tokens.toList := by
  rw [result_lex]
  cases scan 0 src.toList with
  | error f => exact ⟨nofun, nofun⟩
  | ok found =>
      show Except.ok found.toArray = Except.ok tokens ↔ Except.ok found = Except.ok tokens.toList
      rw [Except.ok.injEq, Except.ok.injEq, List.toArray_eq_iff]

/-- Lexing fails exactly if a scan does. -/
theorem result_eq_error_iff {src : Source} {f : LexFailure} :
    (lexer.lex src).result = .error f ↔ scan 0 src.toList = .error f := by
  rw [result_lex]
  cases scan 0 src.toList with
  | error found =>
      show Except.error found = Except.error f ↔ Except.error found = Except.error f
      rw [Except.error.injEq, Except.error.injEq]
  | ok found => exact ⟨nofun, nofun⟩

/-- Lexing the texts of tokens in another layout finds them again. -/
theorem lex_joined {src joined : Source} {tokens : TokenList Lexeme} {texts : List (List UInt8)}
    (shows : List.Forall₂ (Shows src) tokens.toList texts) (spaced : Joined texts joined.toList) :
    ∃ found : TokenList Lexeme, (lexer.lex joined).result = .ok found ∧
      List.Forall₂ (SameText src joined) tokens.toList found.toList := by
  obtain ⟨leading, rest, layout, texts, split⟩ := spaced
  have remaining : joined.toList.drop (0 + leading.length) = rest := by
    rw [split, Nat.zero_add, List.drop_left]
  obtain ⟨found, scanned, same⟩ := exists_scan_of_spaced texts shows remaining
  refine ⟨found.toArray, ?_, same⟩
  rw [result_lex, split, scan_layout layout, scanned]
  rfl

/-- If a source is parsed, then so are the texts of the leaves in any other layout. The tree is the
same, with the same terminals and texts at its leaves. -/
theorem parse_joined {pipeline : Pipeline Lexeme Phrase Production Rule Mode}
    (made : pipeline? = .ok pipeline) {src : Source} {tokens : TokenList Lexeme}
    {t : Tree Lexeme Phrase} (lexed : (pipeline.lexer.lex src).result = .ok tokens)
    (parsed : (pipeline.parser.parse tokens).result = .ok t) :
    ∃ texts : List (List UInt8),
      (Traversal.toList t.leafWalk).map (·.bytes? src) = texts.map (some ·.toArray) ∧
      ∀ joined : Source, Joined texts joined.toList →
        ∃ tokens' t', (pipeline.lexer.lex joined).result = .ok tokens' ∧
          (pipeline.parser.parse tokens').result = .ok t' ∧
          t.Alike (SameText src joined) t' := by
  obtain rfl : pipeline = ⟨lexer, parseTables⟩ := by
    rw [pipeline?, lexer?_eq] at made
    exact (Except.ok.inj made).symm
  have scanned := result_eq_ok_iff.mp lexed
  have remaining : src.toList.drop 0 = src.toList := rfl
  obtain ⟨texts, shows⟩ := exists_texts remaining tokens.toList scanned
  refine ⟨texts, ?_, ?_⟩
  · rw [ParseTables.leaves_of_parse parsed]
    exact map_bytes_of_shows shows
  · intro joined spaced
    obtain ⟨found, lexed', same⟩ := lex_joined shows spaced
    have alike := ParseTables.parse_alike parseTables (fun a b related => related.1) same
    obtain ⟨t', parsed', trees⟩ := alike.succeeds t parsed
    exact ⟨found, t', lexed', parsed', trees⟩

def quotient : Source := #[0x38, 0x2F, 0x32]

def quotientTokens : TokenList Lexeme :=
  #[⟨.num, ⟨0, 1⟩⟩, ⟨.divide, ⟨1, 2⟩⟩, ⟨.num, ⟨2, 3⟩⟩]

def quotientTree : Tree Lexeme Phrase :=
  .node .expr [.node .expr [.leaf ⟨.num, ⟨0, 1⟩⟩], .leaf ⟨.divide, ⟨1, 2⟩⟩,
    .node .expr [.leaf ⟨.num, ⟨2, 3⟩⟩]]

/-- The source `8 //***/2`, in which a comment stands right behind the slash. -/
def spacedQuotient : Source := #[0x38, 0x20, 0x2F, 0x2F, 0x2A, 0x2A, 0x2A, 0x2F, 0x32]

theorem joined_quotient : Joined [[0x38], [0x2F], [0x32]] spacedQuotient.toList := by
  have blank : Layout [0x20] := .blank (by decide) .nil
  have comment : Layout (slash :: star :: ([star] ++ [star, slash])) :=
    .comment (by decide) .nil
  exact ⟨[], _, .nil, .cons blank nofun (.cons comment nofun (.cons .nil nofun .nil)), rfl⟩

theorem parse_joined_quotient :
    (lexer.lex quotient).result = .ok quotientTokens ∧
    (parseTables.parse quotientTokens).result = .ok quotientTree ∧
    ∃ tokens' t', (lexer.lex spacedQuotient).result = .ok tokens' ∧
      (parseTables.parse tokens').result = .ok t' ∧
      quotientTree.Alike (SameText quotient spacedQuotient) t' := by
  have made : pipeline? = .ok ⟨lexer, parseTables⟩ := by
    rw [pipeline?, lexer?_eq]
    rfl
  have lexed : (lexer.lex quotient).result = .ok quotientTokens := by decide +kernel
  have parsed : (parseTables.parse quotientTokens).result = .ok quotientTree := rfl
  obtain ⟨texts, leaves, again⟩ := parse_joined made lexed parsed
  have known : texts = [[0x38], [0x2F], [0x32]] := by
    rw [Tree.toList_leafWalk] at leaves
    refine (List.map_inj_right ?_).mp (leaves.symm.trans rfl)
    intro text text' same
    simpa using same
  exact ⟨lexed, parsed, again spacedQuotient (known ▸ joined_quotient)⟩

end Expression

end TableParsing

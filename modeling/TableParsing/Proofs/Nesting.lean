import TableParsing.Proofs.Lexing.Outcome
import TableParsing.Proofs.Parsing.History
import TableParsing.Proofs.Tree.Spans

/-!
# Source positions in parse trees

A lexer emits tokens in the order in which it reads them. Only the token at the end of the source
can be empty, and none comes after it, so every token begins behind the one before it. A parser
keeps the tokens and their order. Spans therefore nest in every tree that comes of lexing and
parsing a source, whatever the tables of the two are.
-/

namespace TableParsing

/-- The tokens of a complete chain lie one behind the other. -/
theorem Lexer.Completes.ordered {T R M : Type} [Entry M] {lexer : Lexer T R M} {src : Source}
    {steps : List (LexStep M)} {mode : M} (h : lexer.Completes src steps mode) :
    Span.Ordered src ((lexer.emitted src steps mode).map Token.span) := by
  have covering := h.covering
  have apart : ∀ t ∈ steps.filterMap lexer.tokenOf?, ∀ u : Token T,
      t.span.stop ≤ u.span.start → t.span.Before u.span := by
    intro t mem u le
    exact ⟨Nat.lt_of_lt_of_le (covering.nonempty t mem) le, le⟩
  obtain ⟨inSteps, _, beforeEnd⟩ := List.pairwise_append.mp covering.ordered
  refine ⟨?_, List.pairwise_map.mpr (List.pairwise_append.mpr ⟨?_, ?_, ?_⟩)⟩
  · intro s mem
    obtain ⟨t, emitted, rfl⟩ := List.mem_map.mp mem
    exact covering.fits t emitted
  · refine inSteps.imp_of_mem ?_
    intro t u mem _ le
    exact apart t mem u le
  · cases lexer.endToken? mode src.size <;> simp
  · intro t mem u last
    exact apart t mem u (beforeEnd t mem u last)

namespace Pipeline

variable {T N P R M : Type} [Terminal T] [DecidableEq M] [Entry M]

/-- In a tree that comes of lexing and parsing a source, the spans of children lie in order and make
up that of their node, those of descendants lie in those of their ancestors, and all of them lie in
the source. -/
theorem spans_nest (pipeline : Pipeline T N P R M) {src : Source} {tokens : TokenList T}
    {t : Tree T N} (lexed : (pipeline.lexer.lex src).result = .ok tokens)
    (parsed : (pipeline.parser.parse tokens).result = .ok t) : t.SpansNest src := by
  obtain ⟨steps, mode, completes, emitted⟩ := Lexer.exists_completes_of_result lexed
  have leaves := ParseTables.leaves_of_parse parsed
  rw [Tree.toList_leafWalk, emitted] at leaves
  apply Tree.spansNest_of_ordered
  rw [leaves]
  exact completes.ordered

/-- The whole of a source, a letter with what surrounds it, and something empty. -/
def whole : SheetNonterminal := ⟨⟨0, "Whole"⟩⟩

def middle : SheetNonterminal := ⟨⟨1, "Middle"⟩⟩

def gap : SheetNonterminal := ⟨⟨2, "Gap"⟩⟩

/-- The entries that reduce `Whole -> Middle END`, `Middle -> Gap A Gap` and `Gap ->`. -/
def toWhole : Cell := .reduce ⟨⟨0, "whole"⟩, whole, 2⟩

def toMiddle : Cell := .reduce ⟨⟨1, "middle"⟩, middle, 3⟩

def toGap : Cell := .reduce ⟨⟨2, "gap"⟩, gap, 0⟩

/-- One letter between gaps, with a token at the end of the source. -/
def gaps : Pipeline SheetTerminal SheetNonterminal SheetProduction SheetRule SheetMode where
  lexer := ⟨{ Lexer.letterSheet (.emit Lexer.letter) with
    endActions := #[.emit Terminal.endMark] }.tables none, #[Lexer.letterAutomaton .empty]⟩
  parser := ParseSheet.tables {
    terminalCount := 1
    action := #[#[toGap, .error], #[.shift ⟨2⟩, .error], #[.error, toGap], #[.error, toMiddle],
      #[.error, .shift ⟨5⟩], #[.error, toWhole], #[.error, .accept]]
    goto := #[#[.goto ⟨6⟩, .goto ⟨4⟩, .goto ⟨1⟩], #[], #[.error, .error, .goto ⟨3⟩]] }

def gapTokens : TokenList SheetTerminal := #[⟨Lexer.letter, ⟨0, 1⟩⟩, ⟨Terminal.endMark, ⟨1, 1⟩⟩]

def gapTree : Tree SheetTerminal SheetNonterminal :=
  .node whole [.node middle [.node gap [], .leaf ⟨Lexer.letter, ⟨0, 1⟩⟩, .node gap []],
    .leaf ⟨Terminal.endMark, ⟨1, 1⟩⟩]

/-- Neither the empty nodes around the letter nor the empty token at the end are in the way. -/
theorem spans_nest_gaps :
    (gaps.lexer.lex #[97]).result = .ok gapTokens ∧
      (gaps.parser.parse gapTokens).result = .ok gapTree ∧ gapTree.SpansNest #[97] := by
  have lexed : (gaps.lexer.lex #[97]).result = .ok gapTokens := by decide +kernel
  have parsed : (gaps.parser.parse gapTokens).result = .ok gapTree := rfl
  exact ⟨lexed, parsed, gaps.spans_nest lexed parsed⟩

end Pipeline

end TableParsing

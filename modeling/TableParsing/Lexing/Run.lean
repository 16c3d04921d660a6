import TableParsing.Diagnostics
import TableParsing.Lexing.Lexer
import TableParsing.Source.Position
import TableParsing.Token

/-!
# Lexing

Lexing goes through a source from match to match. At each offset the automaton of the current mode
finds the longest match; the action of its rule appends a token or drops the bytes, and may change
the mode. At the end of the source the end rule is applied to the empty range. A run ends with a
token list or with the cause of a failure, and in either case tells what it counted and did.
-/

namespace TableParsing

inductive LexFailure where
  /-- No pattern matches anything at an offset, where the given byte is. -/
  | unmatched (byte : UInt8) (offset : Nat)
  /-- The action for what was found at an offset is to fail. -/
  | rejected (reason : String) (offset : Nat)
  /-- The search for a match cannot begin at an offset. -/
  | refused (refusal : SearchRefusal) (offset : Nat)
  deriving DecidableEq

namespace LexFailure

def offset : LexFailure → Nat
  | .unmatched _ n | .rejected _ n | .refused _ n => n

/-- An offset of a source with its position. -/
def place (src : Source) (offset : Nat) : String :=
  "at offset " ++ toString offset ++ " (" ++ toString (Position.locate src offset) ++ ")"

def refusalMessage (offset : Nat) : SearchRefusal → String
  | .unanchored => "anchored searches are not supported or enabled"
  | .behind b =>
    "quit search after observing byte " ++ Quoted.bareByte b ++ " at offset " ++
      toString (offset - 1)

def message (src : Source) : LexFailure → String
  | .unmatched b n => "no terminal matches byte " ++ Quoted.byte b ++ " " ++ place src n
  | .rejected reason n => reason ++ " " ++ place src n
  | .refused refusal n =>
    "cannot start match at offset " ++ toString n ++ ": " ++ refusalMessage n refusal

end LexFailure

inductive LexEvent (R M : Type) where
  /-- In a mode, a pattern with its rule matched a range of the source. -/
  | matched (mode : M) (rule : R) (pattern : Nat) (span : Span)
  /-- The mode changed. -/
  | switched (old new : M)

namespace LexEvent

variable {R M : Type}

/-- Bytes in quotes: as text if they are text, else in hexadecimal digits. -/
def quoteBytes (bytes : List UInt8) : String :=
  Quoted.text ((Utf8.decode? bytes).getD (Hex.encode bytes))

def line [Entry R] [Entry M] (src : Source) : LexEvent R M → LogLine
  | .matched mode rule pattern span =>
    ⟨.trace, "MATCHED: mode: " ++ Entry.name mode ++ ", rule: " ++ Entry.name rule ++
      ", pattern: " ++ toString pattern ++ ", span: " ++ toString span ++
      ", text: " ++ quoteBytes ((span.slice? src).getD #[]).toList⟩
  | .switched old new => ⟨.trace, "BEGIN: " ++ Entry.name old ++ " -> " ++ Entry.name new⟩

end LexEvent

/-- How far a run has come: the mode, the tokens so far, what has been counted, and what has been
done. The latest token and the latest event come first. -/
structure LexProgress (T R M : Type) where
  mode : M
  tokens : List (Token T) := []
  counters : LexCounters := {}
  events : List (LexEvent R M) := []

/-- A finished run: how far it came, and why it failed if it did. -/
structure LexRun (T R M : Type) where
  progress : LexProgress T R M
  failure? : Option LexFailure

namespace LexProgress

variable {T R M : Type}

def tokenList (p : LexProgress T R M) : TokenList T := p.tokens.reverse.toArray

def search (p : LexProgress T R M) : LexProgress T R M :=
  { p with counters := { p.counters with searches := p.counters.searches + 1 } }

def note (p : LexProgress T R M) (e : LexEvent R M) : LexProgress T R M :=
  { p with events := e :: p.events }

/-- Append a token over a range, or count the range as skipped. -/
def collect (p : LexProgress T R M) (terminal? : Option T) (span : Span) : LexProgress T R M :=
  match terminal? with
  | some terminal =>
    { p with
      tokens := ⟨terminal, span⟩ :: p.tokens
      counters := { p.counters with tokens := p.counters.tokens + 1 } }
  | none => { p with counters := { p.counters with skipped := p.counters.skipped + span.length } }

/-- Go on in a mode. Only a different mode is an event. -/
def enter [DecidableEq M] (p : LexProgress T R M) (mode : M) : LexProgress T R M :=
  if mode = p.mode then p
  else
    { p with
      mode := mode
      counters := { p.counters with modeSwitches := p.counters.modeSwitches + 1 }
      events := .switched p.mode mode :: p.events }

/-- Perform an action on a range, or fail with its reason. -/
def perform [DecidableEq M] (p : LexProgress T R M) (action : LexAction T M) (span : Span) :
    Except LexFailure (LexProgress T R M) :=
  match action with
  | .reject reason => .error (.rejected reason span.start)
  | action => .ok ((p.collect action.terminal? span).enter (action.nextMode p.mode))

end LexProgress

namespace Lexer

variable {T R M A S : Type} [Machine A S] [DecidableEq M] [Entry M]

/-- The longest match of the current mode, in front of the given bytes. The automaton is looked up
by the number of the mode. Tables have to see to it that there is one: a mode without an automaton
would end the program, while here nothing matches in it. -/
def match? (lexer : Lexer T R M A) (mode : M) (before : Option UInt8) (offset : Nat)
    (b : UInt8) (rest : List UInt8) : Except LexFailure Match :=
  match lexer.automata[Entry.index mode]? with
  | none => .error (.unmatched b offset)
  | some a =>
    match Machine.start a before with
    | .error refusal => .error (.refused refusal offset)
    | .ok s =>
      match Machine.longestMatch? a s (b :: rest) with
      | none => .error (.unmatched b offset)
      | some m => .ok m

/-- Apply the end rule at the end of the source. -/
def finish (lexer : Lexer T R M A) (p : LexProgress T R M) (offset : Nat) : LexRun T R M :=
  match p.perform (lexer.tables.action p.mode lexer.tables.endRule) (.empty offset) with
  | .ok p => ⟨p, none⟩
  | .error e => ⟨p, some e⟩

/-- Lex the remaining bytes, which begin at `offset` and follow the byte `before`. -/
def lexFrom (lexer : Lexer T R M A) (p : LexProgress T R M) (before : Option UInt8) (offset : Nat)
    (bytes : List UInt8) : LexRun T R M :=
  match bytes with
  | [] => lexer.finish p offset
  | b :: rest =>
    let p := p.search
    match lexer.match? p.mode before offset b rest with
    | .error e => ⟨p, some e⟩
    | .ok m =>
      let rule := lexer.tables.rule p.mode m.pattern
      let span : Span := ⟨offset, offset + m.length⟩
      let p := p.note (.matched p.mode rule m.pattern span)
      match p.perform (lexer.tables.action p.mode rule) span with
      | .error e => ⟨p, some e⟩
      | .ok p =>
        lexer.lexFrom p (b :: rest)[m.length - 1]? (offset + m.length) ((b :: rest).drop m.length)
termination_by bytes.length
decreasing_by
  have := m.pos
  simp only [List.length_drop, List.length_cons]
  omega

/-- Lex a source from its beginning, in the start mode. -/
def lex (lexer : Lexer T R M A) (src : Source) : LexRun T R M :=
  lexer.lexFrom { mode := lexer.tables.startMode } none 0 src.toList

end Lexer

namespace LexRun

variable {T R M : Type}

def result (run : LexRun T R M) : Except LexFailure (TokenList T) :=
  match run.failure? with
  | none => .ok run.progress.tokenList
  | some e => .error e

/-- Add a run to diagnostics: its counters, and its failure if it has one. -/
def record (run : LexRun T R M) (src : Source) (d : Diagnostics) : Diagnostics :=
  let d := { d with lexer := d.lexer + run.progress.counters }
  match run.failure? with
  | none => d
  | some e => d.report .lexical [e.message src]

def log [Entry R] [Entry M] (run : LexRun T R M) (src : Source) : List LogLine :=
  let last := match run.failure? with
    | some e => Diagnostics.reportLine .lexical [e.message src]
    | none =>
      ⟨.debug, "lexed " ++ toString run.progress.tokens.length ++ " tokens from " ++
        toString src.size ++ " bytes, final mode " ++ Entry.name run.progress.mode⟩
  run.progress.events.reverse.map (·.line src) ++ [last]

end LexRun

end TableParsing

import TableParsing.Diagnostics
import TableParsing.Parsing.Tables
import TableParsing.Tree.Basic

/-!
# Parsing

A parser keeps a stack of states and a stack of trees. One turn looks up the action for the current
state and the next terminal, and resolves it if it is ambiguous. Shifting puts the next token on the
stack of trees; reducing replaces the trees of a right-hand side by one node. A run takes turns
until the input is accepted or a turn fails.

Nothing is assumed of the tables, so every way in which they can fail to fit together is a failure
of its own. Tables can also make a run go on for ever, on ever taller stacks. The number of turns is
therefore bounded, far above what a run that ends can need for its length, and a run that reaches
the bound is reported as out of memory.
-/

namespace TableParsing

/-- Why parsing fails, over terminals `T`, nonterminals `N` and productions `P`. -/
inductive ParseFailure (T N P : Type) where
  /-- A token cannot follow those before it. -/
  | unexpectedToken (token : Token T)
  /-- The input cannot end here, after the last token if there is one. -/
  | unexpectedEnd (last : Option (Token T))
  /-- The tables shift a terminal although all tokens are consumed. -/
  | shiftAtEnd (lookahead : T)
  /-- There are fewer trees than a production replaces. -/
  | underflow (production : P)
  /-- There is no state to go on with after a reduction. -/
  | noGoto (symbol : N) (state : StateId)
  /-- The tables accept, but there is not exactly one tree, or tokens are left. `below` is the
  number of trees under the topmost. -/
  | badAccept (below consumed total : Nat)
  /-- The action is none that can be performed. -/
  | badAction (action : ParseAction P) (lookahead : T)
  /-- The bound on the number of turns is reached. -/
  | exhausted

namespace ParseFailure

variable {T N P : Type}

def kind : ParseFailure T N P → FailureKind
  | .exhausted => .allocation
  | _ => .syntactic

def message [Terminal T] [Labelled N] [Labelled P] : ParseFailure T N P → String
  | .unexpectedToken t =>
    "unexpected " ++ Labelled.label t.terminal ++ " at " ++ toString t.span
  | .unexpectedEnd (some t) =>
    "unexpected end of input after " ++ Labelled.label t.terminal ++ " at " ++ toString t.span
  | .unexpectedEnd none => "unexpected end of input"
  | .shiftAtEnd t => "parse tables shift " ++ Labelled.label t ++ " at end of input"
  | .underflow p => "parse stack underflow reducing " ++ Labelled.label p
  | .noGoto n s => "parse tables have no goto for " ++ Labelled.label n ++ " in " ++ Entry.name s
  | .badAccept below consumed total =>
    "parse tables accept with " ++ toString (below + 1) ++ " trees and " ++ toString consumed ++
      " of " ++ toString total ++ " tokens consumed"
  | .badAction action t =>
    "parse tables give " ++ action.name ++ " on " ++ Labelled.label t
  | .exhausted => "out of memory growing parser stack"

end ParseFailure

/-- What a parser looks at in one turn: its states, the current one first, the next terminal, the
ambiguity found there if any, and the action to perform. -/
structure Turn (T P : Type) where
  states : List StateId
  lookahead : T
  ambiguity? : Option AmbigId
  action : ParseAction P

/-- The stacks of a parser, how many tokens it has consumed, and what it has counted. `below` holds
the states under the current one; it is as long as the stack of trees. Both stacks have their tops
first. -/
structure Configuration (T N : Type) where
  state : StateId
  below : List StateId := []
  trees : List (Tree T N) := []
  index : Nat := 0
  shifts : Nat := 0
  reductions : Nat := 0
  ambiguities : Nat := 0

namespace Configuration

variable {T N : Type}

/-- All states, the current one first. -/
def states (c : Configuration T N) : List StateId := c.state :: c.below

def counters (c : Configuration T N) : ParseCounters :=
  ⟨c.index, c.shifts, c.reductions, c.ambiguities⟩

end Configuration

/-- Split off the first elements of a list, if there are as many as asked for. -/
def splitFirst? {α : Type} : Nat → List α → Option (List α × List α)
  | 0, xs => some ([], xs)
  | _ + 1, [] => none
  | n + 1, x :: xs =>
    match splitFirst? n xs with
    | some (first, rest) => some (x :: first, rest)
    | none => none

theorem splitFirst?_eq {α : Type} (n : Nat) (xs : List α) :
    splitFirst? n xs = if n ≤ xs.length then some (xs.take n, xs.drop n) else none := by
  induction n generalizing xs with
  | zero => simp [splitFirst?]
  | succ n ih =>
    cases xs with
    | nil => simp [splitFirst?]
    | cons x xs =>
      rw [splitFirst?, ih]
      by_cases h : n ≤ xs.length <;> simp [h]

inductive TurnResult (T N P : Type) where
  | next (c : Configuration T N)
  | accepted (tree : Tree T N)
  | failed (e : ParseFailure T N P)

namespace ParseTables

variable {T N P : Type} [Terminal T]

/-- The next terminal: that of the next token, or the end mark. -/
def lookahead (tokens : TokenList T) (index : Nat) : T :=
  match tokens[index]? with
  | some t => t.terminal
  | none => Terminal.endMark

def turn (tables : ParseTables T N P) (tokens : TokenList T) (c : Configuration T N) : Turn T P :=
  let next := lookahead tokens c.index
  match tables.action c.state next with
  | .ambig a => ⟨c.states, next, some a, tables.resolve a next⟩
  | action => ⟨c.states, next, none, action⟩

def shift (tokens : TokenList T) (c : Configuration T N) (next : T) (target : StateId) :
    TurnResult T N P :=
  match tokens[c.index]? with
  | none => .failed (.shiftAtEnd next)
  | some t =>
    .next { c with
      state := target
      below := c.state :: c.below
      trees := .leaf t :: c.trees
      index := c.index + 1
      shifts := c.shifts + 1 }

/-- Put a node in the place of the trees of a right-hand side, and go on from the state
under them. -/
def reduce (tables : ParseTables T N P) (c : Configuration T N) (p : P) : TurnResult T N P :=
  match splitFirst? (tables.size p) c.trees, splitFirst? (tables.size p) c.states with
  | some (children, trees), some (_, top :: below) =>
    match tables.goto top (tables.lhs p) with
    | none => .failed (.noGoto (tables.lhs p) top)
    | some target =>
      .next { c with
        state := target
        below := top :: below
        trees := .node (tables.lhs p) children.reverse :: trees
        reductions := c.reductions + 1 }
  | _, _ => .failed (.underflow p)

/-- Accept if there is one tree over all tokens. -/
def accept (tokens : TokenList T) (c : Configuration T N) : TurnResult T N P :=
  match c.trees with
  | [tree] =>
    if c.index = tokens.size then .accepted tree
    else .failed (.badAccept 0 c.index tokens.size)
  | trees => .failed (.badAccept (trees.length - 1) c.index tokens.size)

/-- The failure of a configuration in which the next token, or the end of the input, is wrong. -/
def unexpected (tokens : TokenList T) (c : Configuration T N) : ParseFailure T N P :=
  match tokens[c.index]? with
  | some t => .unexpectedToken t
  | none => .unexpectedEnd tokens.back?

def perform (tables : ParseTables T N P) (tokens : TokenList T) (c : Configuration T N)
    (next : T) : ParseAction P → TurnResult T N P
  | .shift target => shift tokens c next target
  | .reduce p => tables.reduce c p
  | .accept => accept tokens c
  | .error => .failed (unexpected tokens c)
  | action => .failed (.badAction action next)

/-- Count the ambiguity that a turn resolves, if there is one. -/
def countAmbiguity (t : Turn T P) (c : Configuration T N) : Configuration T N :=
  match t.ambiguity? with
  | some _ => { c with ambiguities := c.ambiguities + 1 }
  | none => c

end ParseTables

/-- A finished run: its result, the configuration in which the last turn was taken, and the turns,
the last one first. -/
structure ParseRun (T N P : Type) where
  result : Except (ParseFailure T N P) (Tree T N)
  final : Configuration T N
  turns : List (Turn T P)

namespace ParseTables

variable {T N P : Type} [Terminal T]

/-- Take turns until the run ends, but no more than the bound allows. -/
def runFrom (tables : ParseTables T N P) (tokens : TokenList T) :
    Nat → Configuration T N → List (Turn T P) → ParseRun T N P
  | 0, c, turns => ⟨.error .exhausted, c, turns⟩
  | bound + 1, c, turns =>
    let t := tables.turn tokens c
    let c := countAmbiguity t c
    match tables.perform tokens c t.lookahead t.action with
    | .next c => tables.runFrom tokens bound c (t :: turns)
    | .accepted tree => ⟨.ok tree, c, t :: turns⟩
    | .failed e => ⟨.error e, c, t :: turns⟩

def initial (tables : ParseTables T N P) : Configuration T N := { state := tables.start }

def turnBound (tokens : TokenList T) : Nat := (tokens.size + 1) * 0x100000000

def parse (tables : ParseTables T N P) (tokens : TokenList T) : ParseRun T N P :=
  tables.runFrom tokens (turnBound tokens) tables.initial []

end ParseTables

namespace Turn

variable {T P : Type} [Terminal T] [Labelled P]

/-- The lines that the log receives for a turn: the states from the bottom with the next terminal,
the ambiguity if there is one, and the action if it can be performed. -/
def lines (size : P → Nat) (t : Turn T P) : List LogLine :=
  let stack := t.states.reverse.foldl (fun acc s => acc ++ "<" ++ Entry.name s ++ "> ") ""
  let looked := [stack ++ " <-  " ++ Labelled.label t.lookahead]
  let chosen := match t.ambiguity? with
    | some a => ["Ambig " ++ Entry.name a]
    | none => []
  let performed := match t.action with
    | .shift s => ["Shift " ++ Entry.name s]
    | .reduce p =>
      ["Reduce " ++ Entry.name p ++ "(" ++ Labelled.label p ++ ") size " ++ toString (size p)]
    | .accept => ["Accept"]
    | _ => []
  (looked ++ chosen ++ performed).map (⟨.trace, ·⟩)

end Turn

namespace ParseRun

variable {T N P : Type}

/-- What a run hands over of its counts. A run that is out of memory ends before it does so. -/
def counters? (run : ParseRun T N P) : Option ParseCounters :=
  match run.result with
  | .error .exhausted => none
  | _ => some run.final.counters

theorem counters?_of_ne_exhausted {run : ParseRun T N P} (h : run.result ≠ .error .exhausted) :
    run.counters? = some run.final.counters := by
  unfold counters?
  split
  · next exhausted => exact absurd exhausted h
  · rfl

variable [Terminal T] [Labelled N] [Labelled P]

/-- Record a run in diagnostics: what it hands over of its counts in place of earlier ones, and its
failure if it has one. -/
def record (run : ParseRun T N P) (d : Diagnostics) : Diagnostics :=
  let d := match run.result with
    | .ok _ => d
    | .error e => d.report e.kind [e.message]
  { d with parser := run.counters?.getD d.parser }

def log (run : ParseRun T N P) (size : P → Nat) (tokens : TokenList T) : List LogLine :=
  let failure := match run.result with
    | .ok _ => []
    | .error e => [Diagnostics.reportLine e.kind [e.message]]
  let summary := match run.counters? with
    | some c =>
      [⟨.debug, "parsed " ++ toString c.tokens ++ " of " ++ toString tokens.size ++ " tokens: " ++
        toString c.shifts ++ " shifts, " ++ toString c.reductions ++ " reductions, " ++
        toString c.ambiguities ++ " ambiguities"⟩]
    | none => []
  run.turns.reverse.flatMap (·.lines size) ++ failure ++ summary

/-- Counts that are handed over take the place of earlier ones. -/
theorem parser_of_record {run : ParseRun T N P} {c : ParseCounters} (h : run.counters? = some c)
    (d : Diagnostics) : (run.record d).parser = c := by
  rw [record, h]
  rfl

/-- Out of memory, earlier counts stay. -/
theorem parser_of_exhausted {run : ParseRun T N P} (h : run.result = .error .exhausted)
    (d : Diagnostics) : (run.record d).parser = d.parser := by
  rw [record, counters?, h]
  rfl

end ParseRun

end TableParsing

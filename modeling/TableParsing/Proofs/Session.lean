import TableParsing.Session

/-!
# Diagnostics over many operations

Lexing, parsing, reports and clearing share one record of diagnostics. Lexing counts on from what is
counted there, and parsing replaces it; a failure is put in the place of an earlier one, and a
success leaves it. None of them reads what it finds. So each operation returns what it would return
by itself, and what diagnostics say after any number of operations can be told from the operations
alone, as far back as the last clearing.
-/

namespace TableParsing

section CountingOn

variable {T R M : Type}

namespace LexCounters

theorem empty_add (c : LexCounters) : {} + c = c := by
  show LexCounters.mk _ _ _ _ = c
  simp only [Nat.zero_add]

end LexCounters

/-- The same progress, if counting began at `earlier`. -/
def LexProgress.countedOn (p : LexProgress T R M) (earlier : LexCounters) : LexProgress T R M :=
  { p with counters := earlier + p.counters }

def LexRun.countedOn (run : LexRun T R M) (earlier : LexCounters) : LexRun T R M :=
  { run with progress := run.progress.countedOn earlier }

variable {p : LexProgress T R M} {earlier : LexCounters}

namespace LexProgress

@[simp] theorem mode_countedOn : (p.countedOn earlier).mode = p.mode := rfl

theorem search_countedOn : (p.countedOn earlier).search = p.search.countedOn earlier := rfl

theorem note_countedOn (e : LexEvent R M) :
    (p.countedOn earlier).note e = (p.note e).countedOn earlier := rfl

theorem collect_countedOn (terminal? : Option T) (span : Span) :
    (p.countedOn earlier).collect terminal? span =
      (p.collect terminal? span).countedOn earlier := by
  cases terminal? with
  | some terminal => rfl
  | none =>
      have sum : earlier.skipped + p.counters.skipped + span.length =
          earlier.skipped + (p.counters.skipped + span.length) := Nat.add_assoc ..
      exact congrArg (fun n => { p.countedOn earlier with
        counters := { earlier + p.counters with skipped := n } }) sum

variable [DecidableEq M]

theorem enter_countedOn (mode : M) :
    (p.countedOn earlier).enter mode = (p.enter mode).countedOn earlier := by
  by_cases same : mode = p.mode
  · rw [enter, enter, mode_countedOn, if_pos same, if_pos same]
  · rw [enter, enter, mode_countedOn, if_neg same, if_neg same]
    rfl

theorem perform_countedOn (action : LexAction T M) (span : Span) :
    (p.countedOn earlier).perform action span =
      (p.perform action span).map (·.countedOn earlier) := by
  cases action with
  | reject reason => rfl
  | emit | emitBegin | skip | begin =>
      simp only [perform, collect_countedOn, enter_countedOn, mode_countedOn]
      rfl

end LexProgress

namespace Lexer

variable [DecidableEq M] [Entry M] {lexer : Lexer T R M}

omit [Entry M] in
theorem finish_countedOn (offset : Nat) :
    lexer.finish (p.countedOn earlier) offset = (lexer.finish p offset).countedOn earlier := by
  rw [finish, finish, LexProgress.perform_countedOn, LexProgress.mode_countedOn]
  cases p.perform (lexer.tables.action p.mode lexer.tables.endRule) (.empty offset) with
  | ok q => rfl
  | error e => rfl

/-- Where counting begins makes no other difference to a run. -/
theorem lexFrom_countedOn (p : LexProgress T R M) (before : Option UInt8) (offset : Nat)
    (bytes : List UInt8) :
    lexer.lexFrom (p.countedOn earlier) before offset bytes =
      (lexer.lexFrom p before offset bytes).countedOn earlier := by
  fun_induction lexer.lexFrom p before offset bytes with
  | case1 p before offset => rw [lexFrom, finish_countedOn]
  | case2 p before offset b rest searched e missing =>
      rw [lexFrom, LexProgress.search_countedOn, LexProgress.mode_countedOn]
      simp only [searched, missing]
      rfl
  | case3 p before offset b rest searched m found rule span noted e performed =>
      rw [lexFrom, LexProgress.search_countedOn, LexProgress.mode_countedOn]
      simp only [searched, found, LexProgress.note_countedOn, LexProgress.mode_countedOn,
        LexProgress.perform_countedOn]
      rw [show noted.perform _ span = _ from performed]
      rfl
  | case4 p before offset b rest searched m found rule span noted q performed ih =>
      rw [lexFrom, LexProgress.search_countedOn, LexProgress.mode_countedOn]
      simp only [searched, found, LexProgress.note_countedOn, LexProgress.mode_countedOn,
        LexProgress.perform_countedOn]
      rw [show noted.perform _ span = _ from performed]
      exact ih

end Lexer

end CountingOn

section CountingInPlace

variable {T R M : Type} [DecidableEq M] [Entry M]

/-- Lex a source, with diagnostics at hand. What is counted there is counted on. -/
def Lexer.lexInto (lexer : Lexer T R M) (src : Source) (d : Diagnostics) :
    Except FailureKind (TokenList T) × Diagnostics :=
  let run := lexer.lexFrom { mode := lexer.tables.startMode, counters := d.lexer } none 0 src.toList
  let d := { d with lexer := run.progress.counters }
  match run.failure? with
  | none => (.ok run.progress.tokenList, d)
  | some e => (.error .lexical, d.report .lexical [e.message src])

/-- Counting on in place is adding a run to diagnostics. -/
theorem Lexer.lexInto_eq (lexer : Lexer T R M) (src : Source) (d : Diagnostics) :
    lexer.lexInto src d =
      ((lexer.lex src).result.mapError fun _ => .lexical, (lexer.lex src).record src d) := by
  have counted : lexer.lexFrom { mode := lexer.tables.startMode, counters := d.lexer } none 0
      src.toList = (lexer.lex src).countedOn d.lexer :=
    lexFrom_countedOn { mode := lexer.tables.startMode } none 0 src.toList
  rw [lexInto, counted, LexRun.countedOn, LexRun.result, LexRun.record]
  cases (lexer.lex src).failure? with
  | none => rfl
  | some e => rfl

end CountingInPlace

/-- The failure of a run, as its kind and the message that is stored. -/
def LexRun.reported? {T R M : Type} (run : LexRun T R M) (src : Source) :
    Option (FailureKind × String) :=
  run.failure?.map fun e => (.lexical, Diagnostics.stored [e.message src])

def ParseRun.reported? {T N P : Type} [Terminal T] [Labelled N] [Labelled P]
    (run : ParseRun T N P) : Option (FailureKind × String) :=
  match run.result with
  | .ok _ => none
  | .error e => some (e.kind, Diagnostics.stored [e.message])

namespace Diagnostics

/-- Diagnostics with a failure in place of an earlier one, if there is one. -/
def overwritten (d : Diagnostics) (failure? : Option (FailureKind × String)) : Diagnostics :=
  { d with
    kind := (failure?.map Prod.fst).or d.kind
    message := (failure?.map Prod.snd).getD d.message }

variable {d : Diagnostics} {failure? : Option (FailureKind × String)}

@[simp] theorem parser_overwritten : (d.overwritten failure?).parser = d.parser := rfl

end Diagnostics

theorem LexRun.record_eq {T R M : Type} (run : LexRun T R M) (src : Source) (d : Diagnostics) :
    run.record src d =
      { d.overwritten (run.reported? src) with lexer := d.lexer + run.progress.counters } := by
  rw [record, reported?]
  cases run.failure? with
  | none => rfl
  | some e => rfl

theorem ParseRun.record_eq {T N P : Type} [Terminal T] [Labelled N] [Labelled P]
    (run : ParseRun T N P) (d : Diagnostics) :
    run.record d =
      { d.overwritten run.reported? with parser := run.counters?.getD d.parser } := by
  rw [record, reported?]
  cases run.result with
  | ok tree => rfl
  | error e => rfl

/-- What can be done with diagnostics at hand. Each lexing and each parsing may have tables of its
own. -/
inductive Operation : Type 1 where
  | lex {T R M : Type} [DecidableEq M] [Entry M] (lexer : Lexer T R M) (src : Source)
  | parse {T N P : Type} [Terminal T] [Labelled N] [Labelled P] (tables : ParseTables T N P)
      (tokens : TokenList T)
  | report (kind : FailureKind) (parts : List String)
  | clear

namespace Operation

def Value : Operation → Type
  | @lex T _ _ _ _ _ _ => TokenList T
  | @parse T N _ _ _ _ _ _ => Tree T N
  | report _ _ | clear => Unit

def perform (d : Diagnostics) : (op : Operation) → Except FailureKind op.Value × Diagnostics
  | lex lexer src => lexer.lexInto src d
  | parse tables tokens =>
    ((tables.parse tokens).result.mapError ParseFailure.kind, (tables.parse tokens).record d)
  | report kind parts => (.ok (), d.report kind parts)
  | clear => (.ok (), {})

/-- The diagnostics after operations in order, from fresh ones. -/
def after (ops : List Operation) : Diagnostics := ops.foldl (fun d op => (op.perform d).2) {}

def isClear : Operation → Bool
  | clear => true
  | _ => false

/-- The operations behind the last clearing, the latest first. -/
def recent (ops : List Operation) : List Operation := ops.reverse.takeWhile (!·.isClear)

/-- The failure that an operation has or reports, as its kind and the message that is stored. -/
def failure? : Operation → Option (FailureKind × String)
  | lex lexer src => (lexer.lex src).reported? src
  | parse tables tokens => (tables.parse tokens).reported?
  | report kind parts => some (kind, Diagnostics.stored parts)
  | clear => none

/-- What lexing counts in fresh diagnostics. -/
def lexCounters? : Operation → Option LexCounters
  | lex lexer src => some (lexer.lexInto src {}).2.lexer
  | _ => none

/-- What parsing counts, unless it is out of memory. -/
def parseCounters? : Operation → Option ParseCounters
  | parse tables tokens => (tables.parse tokens).counters?
  | _ => none

/-- What diagnostics say after operations: the latest failure since the last clearing, whatever
succeeded after it, the sum of what each lexing since then has counted, and what the latest parsing
since then has counted. Parsing that is out of memory leaves earlier counts in place. -/
structure Tells (ops : List Operation) (d : Diagnostics) : Prop where
  kind : d.kind = ((recent ops).findSome? failure?).map Prod.fst
  message : d.message = (((recent ops).findSome? failure?).map Prod.snd).getD ""
  lexer : d.lexer = ((recent ops).filterMap lexCounters?).foldr (fun c sum => sum + c) {}
  parser : d.parser = ((recent ops).findSome? parseCounters?).getD {}

/-- The counters that an operation leaves as they are. -/
def Keeps (d d' : Diagnostics) : Operation → Prop
  | lex _ _ => d'.parser = d.parser
  | parse _ _ => d'.lexer = d.lexer
  | report _ _ => d'.lexer = d.lexer ∧ d'.parser = d.parser
  | clear => True

variable {op : Operation} {ops : List Operation} {d : Diagnostics}

/-- What every operation but clearing makes of diagnostics. -/
theorem perform_diagnostics (op : Operation) (d : Diagnostics) (notClear : op.isClear = false) :
    (op.perform d).2 =
      { d.overwritten op.failure? with
        lexer := d.lexer + op.lexCounters?.getD {}
        parser := op.parseCounters?.getD d.parser } := by
  cases op with
  | lex lexer src =>
      simp only [perform, Lexer.lexInto_eq, LexRun.record_eq, failure?, lexCounters?,
        parseCounters?, Option.getD_none, Option.getD_some, Diagnostics.parser_overwritten,
        LexCounters.empty_add]
  | parse tables tokens =>
      show (tables.parse tokens).record d =
        { d.overwritten (tables.parse tokens).reported? with
          parser := (tables.parse tokens).counters?.getD d.parser }
      exact ParseRun.record_eq _ d
  | report kind parts => rfl
  | clear => cases notClear

theorem recent_concat (ops : List Operation) (op : Operation) :
    recent (ops ++ [op]) = if op.isClear then [] else op :: recent ops := by
  rw [recent, List.reverse_append, List.reverse_singleton, List.singleton_append,
    List.takeWhile_cons]
  cases op.isClear <;> rfl

section Stages

variable {T N P R M : Type} [DecidableEq M] [Entry M]

variable [Terminal T] [Labelled N] [Labelled P]

end Stages

/-- One more operation keeps what diagnostics tell. -/
theorem Tells.perform (h : Tells ops d) (op : Operation) :
    Tells (ops ++ [op]) (op.perform d).2 := by
  cases cleared : op.isClear with
  | true =>
      obtain rfl : op = .clear := by cases op <;> first | rfl | cases cleared
      have forgotten : recent (ops ++ [clear]) = recent [] := recent_concat ops clear
      exact ⟨forgotten ▸ rfl, forgotten ▸ rfl, forgotten ▸ rfl, forgotten ▸ rfl⟩
  | false =>
      have later : recent (ops ++ [op]) = op :: recent ops := by
        rw [recent_concat, cleared]
        rfl
      rw [perform_diagnostics op d cleared]
      constructor
      · rw [later, List.findSome?_cons]
        show (op.failure?.map Prod.fst).or d.kind = _
        rw [h.kind]
        cases op.failure? <;> rfl
      · rw [later, List.findSome?_cons]
        show (op.failure?.map Prod.snd).getD d.message = _
        rw [h.message]
        cases op.failure? <;> rfl
      · rw [later, List.filterMap_cons]
        show d.lexer + op.lexCounters?.getD {} = _
        rw [h.lexer]
        cases op.lexCounters? <;> rfl
      · rw [later, List.findSome?_cons]
        show op.parseCounters?.getD d.parser = _
        rw [h.parser]
        cases op.parseCounters? <;> rfl

end Operation

namespace Session

variable {T N P R M : Type} {s : Session T N}

variable [Terminal T] [Labelled N] [Labelled P] {pipeline : Pipeline T N P R M}

end Session

end TableParsing

import TableParsing.Proofs.Parsing.History
import TableParsing.Proofs.Parsing.Lockstep

/-!
# What a parser does before it reads on

Each turn looks at the terminal of one token, and only an acceptance asks how many tokens there are.
So what a parser does until a token is consumed is decided by the terminals up to that token: runs
over two lists that agree so far take the same turns from the same states, whatever comes later. A
token that is refused is refused in front of every continuation, and in the same words.

The bound on turns is the one thing that depends on the whole list. `Halts` is a run without it. A
bounded run is the same run if it has as many turns, and is out of memory if it has not.
-/

namespace TableParsing

variable {T N P : Type}

def Token.SameTerminal (a b : Token T) : Prop := a.terminal = b.terminal

section Equal

mutual

/-- Trees whose tokens are equal are equal. -/
theorem Tree.Alike.eq {t u : Tree T N} : t.Alike Eq u → t = u
  | .leaf tokens => congrArg _ tokens
  | .node children => congrArg _ (Tree.Alike.forest_eq children)

theorem Tree.Alike.forest_eq {ts us : List (Tree T N)} :
    List.Forall₂ (Tree.Alike Eq) ts us → ts = us
  | .nil => rfl
  | .cons first rest => congrArg₂ _ first.eq (Tree.Alike.forest_eq rest)

end

theorem Configuration.Alike.eq {c c' : Configuration T N} (h : c.Alike Eq c') : c = c' := by
  obtain ⟨state, below, trees, index, shifts, reductions, ambiguities⟩ := h
  have trees := Tree.Alike.forest_eq trees
  cases c
  cases c'
  simp_all

end Equal

/-- A run that ends in front of an error in the tables, with `i` tokens consumed. -/
structure ParseRun.RefusedAt (run : ParseRun T N P) (i : Nat) : Prop where
  action : run.turns.head?.map Turn.action = some .error
  consumed : run.final.index = i

namespace ParseTables

variable {tables : ParseTables T N P} {R : Token T → Token T → Prop} {tokens tokens' : TokenList T}
variable {k : Nat}

/-- Lists whose tokens correspond up to an index correspond there, and neither is at its end. -/
theorem corresponds_of_take (inside : k < tokens.size)
    (agree : List.Forall₂ R (tokens.toList.take (k + 1)) (tokens'.toList.take (k + 1)))
    {i : Nat} (le : i ≤ k) : Corresponds R tokens tokens' i := by
  have lengths := agree.length_eq
  simp only [List.length_take, Array.length_toList] at lengths
  have read := getElem?_rel agree i
  rw [List.getElem?_take_of_lt (by omega), List.getElem?_take_of_lt (by omega)] at read
  constructor
  · simpa using read
  · omega

variable [Terminal T] {past past' : List (Configuration T N)} {c c' d : Configuration T N}
variable {run : ParseRun T N P}

/-- Consumed tokens stay consumed. -/
theorem index_le_of_step (h : tables.step tokens c = .next d) : c.index ≤ d.index := by
  cases advance_of_step h with
  | shift =>
      show c.index ≤ (tables.counted tokens c).index + 1
      rw [counted_index]
      exact Nat.le_succ _
  | reduce =>
      show c.index ≤ (tables.counted tokens c).index
      exact Nat.le_of_eq counted_index.symm

theorem Trace.index_le (h : Trace tables tokens past c) : ∀ d ∈ past, d.index ≤ c.index := by
  induction h with
  | start => nofun
  | next _ goes ih =>
      have le := index_le_of_step goes
      intro d mem
      rcases List.mem_cons.mp mem with rfl | earlier
      · exact le
      · exact Nat.le_trans (ih d earlier) le

section Bound

/-- A run that ends by itself, after however many turns. -/
inductive Halts (tables : ParseTables T N P) (tokens : TokenList T) : ParseRun T N P → Prop where
  | intro {past : List (Configuration T N)} {c : Configuration T N}
      {result : Except (ParseFailure T N P) (Tree T N)} (trace : Trace tables tokens past c)
      (last : Ends (tables.step tokens c) result) :
      Halts tables tokens ⟨result, tables.counted tokens c,
        tables.turn tokens c :: past.map (tables.turn tokens)⟩

/-- A token list comes to a run: without a bound on turns it is the run, and with the bound it is
the run or is out of memory. -/
structure ComesTo (tables : ParseTables T N P) (tokens : TokenList T) (run : ParseRun T N P) :
    Prop where
  halts : Halts tables tokens run
  parse_eq : run.turns.length ≤ turnBound tokens → tables.parse tokens = run
  exhausted : turnBound tokens < run.turns.length →
    (tables.parse tokens).result = .error .exhausted

/-- A bounded run goes along a trace as far as the bound allows. -/
theorem Trace.runFrom_eq (h : Trace tables tokens past c) {bound : Nat}
    (room : past.length ≤ bound) :
    tables.runFrom tokens bound tables.initial [] =
      tables.runFrom tokens (bound - past.length) c (past.map (tables.turn tokens)) := by
  induction h with
  | start => rfl
  | @next past c d _ goes ih =>
      rw [List.length_cons] at room
      have left : bound - past.length = bound - (past.length + 1) + 1 := by omega
      rw [ih (by omega), left, runFrom_of_next goes]
      rfl

/-- A trace has been as long as any shorter one. -/
theorem Trace.exists_shorter (h : Trace tables tokens past c) {n : Nat} (le : n ≤ past.length) :
    ∃ past' c', Trace tables tokens past' c' ∧ past'.length = n := by
  induction h with
  | start => exact ⟨[], _, .start, (Nat.le_zero.mp le).symm⟩
  | @next past c d before goes ih =>
      rcases Nat.lt_or_eq_of_le le with shorter | rfl
      · exact ih (Nat.le_of_lt_succ shorter)
      · exact ⟨_, d, before.next goes, rfl⟩

theorem Halts.comesTo (h : Halts tables tokens run) : ComesTo tables tokens run := by
  refine ⟨h, ?_, ?_⟩
  · cases h with
    | @intro past c result trace last =>
        intro room
        simp only [List.length_cons, List.length_map] at room
        have left : turnBound tokens - past.length = turnBound tokens - past.length - 1 + 1 := by
          omega
        rw [parse, trace.runFrom_eq (by omega), left]
        cases hs : tables.step tokens c with
        | next d =>
            rw [hs] at last
            cases last
        | accepted t =>
            rw [hs] at last
            obtain rfl := last.eq_ok
            exact runFrom_of_accepted hs
        | failed f =>
            rw [hs] at last
            obtain rfl := last.eq_error
            exact runFrom_of_failed hs
  · cases h with
    | @intro past c result trace last =>
        intro short
        simp only [List.length_cons, List.length_map] at short
        obtain ⟨past', c', trace', length⟩ := trace.exists_shorter (Nat.le_of_lt_succ short)
        rw [parse, trace'.runFrom_eq (Nat.le_of_eq length), length, Nat.sub_self]
        rfl

end Bound

/-- Over other tokens, a parser has come to a configuration by the same turns, and through the same
configurations but for the tokens. -/
structure SameWay (R : Token T → Token T → Prop) (tables : ParseTables T N P)
    (tokens tokens' : TokenList T) (past past' : List (Configuration T N))
    (c c' : Configuration T N) : Prop where
  trace : Trace tables tokens' past' c'
  turns : past.map (tables.turn tokens) = past'.map (tables.turn tokens')
  before : List.Forall₂ (Configuration.Alike R) past past'
  now : c.Alike R c'

/-- Over other tokens, a parser takes the same turn. Either it goes on from both configurations to
such that are again the same but for the tokens, or it fails in both. -/
structure SameTurn (R : Token T → Token T → Prop) (tables : ParseTables T N P)
    (tokens tokens' : TokenList T) (c c' : Configuration T N) : Prop where
  turn : tables.turn tokens c = tables.turn tokens' c'
  outcome : (tables.step tokens c).Alike R (tables.step tokens' c')
  not_accepted : ∀ t, tables.step tokens c ≠ .accepted t

/-- Before a token is consumed, the tokens up to it decide what a parser does. -/
theorem Trace.exists_sameWay (terminals : ∀ a b, R a b → a.terminal = b.terminal)
    (agree : ∀ i ≤ k, Corresponds R tokens tokens' i) (h : Trace tables tokens past c)
    (unread : ∀ d ∈ past, d.index ≤ k) :
    ∃ past' c', SameWay R tables tokens tokens' past past' c c' := by
  induction h with
  | start => exact ⟨[], _, .start, rfl, .nil, ⟨rfl, rfl, .nil, rfl, rfl, rfl, rfl⟩⟩
  | @next past c d before goes ih =>
      obtain ⟨past', c', trace, turns, befores, now⟩ := ih fun e mem =>
        unread e (List.mem_cons_of_mem c mem)
      have here := agree c.index (unread c List.mem_cons_self)
      have turn := turn_eq tables now (lookahead_eq terminals here)
      have stepped := step_alike tables now terminals here
      generalize goes' : tables.step tokens' c' = result at stepped
      rw [goes] at stepped
      cases stepped with
      | next alike =>
          refine ⟨c' :: past', _, trace.next goes', ?_, .cons now befores, alike⟩
          rw [List.map_cons, List.map_cons, turn, turns]

/-- In front of a token that is there, corresponding configurations take the same turn, and it does
not accept. -/
theorem sameTurn_of_alike (terminals : ∀ a b, R a b → a.terminal = b.terminal)
    (alike : c.Alike R c') (here : Corresponds R tokens tokens' c.index)
    (inside : c.index < tokens.size) : SameTurn R tables tokens tokens' c c' := by
  refine ⟨turn_eq tables alike (lookahead_eq terminals here),
    step_alike tables alike terminals here, ?_⟩
  intro t accepts
  obtain ⟨_, _, whole⟩ := of_step_eq_accepted accepts
  omega

/-- A run that is refused ends by itself, with the failure for what is next. -/
theorem Finishes.exists_of_refusedAt {i : Nat} (h : Finishes tables tokens run)
    (refused : run.RefusedAt i) :
    ∃ past c, Trace tables tokens past c ∧ (tables.turn tokens c).action = .error ∧ c.index = i ∧
      run = ⟨.error (unexpected tokens c), tables.counted tokens c,
        tables.turn tokens c :: past.map (tables.turn tokens)⟩ := by
  obtain ⟨action, consumed⟩ := refused
  cases h with
  | @ends past c result trace last =>
      have finds : (tables.turn tokens c).action = .error := by simpa using action
      have fails := step_of_error finds
      rw [fails] at last
      obtain rfl := last.eq_error
      exact ⟨past, c, trace, finds, by simpa using consumed, rfl⟩
  | exhausted trace =>
      -- The latest turn has gone on, so it has not found an error.
      cases trace with
      | start => cases action
      | @next past c _ before goes =>
          have finds : (tables.turn tokens c).action = .error := by simpa using action
          cases (step_of_error finds).symm.trans goes

/-- A refusal does not depend on what follows the token that is refused. -/
theorem halts_of_refusedAt {i : Nat} (inside : i < tokens.size)
    (same : tokens.toList.take (i + 1) = tokens'.toList.take (i + 1))
    (refused : (tables.parse tokens).RefusedAt i) :
    ∃ t, tokens[i]? = some t ∧ (tables.parse tokens).result = .error (.unexpectedToken t) ∧
      Halts tables tokens' (tables.parse tokens) := by
  obtain ⟨past, c, trace, finds, rfl, ends⟩ :=
    (parse_finishes tables tokens).exists_of_refusedAt refused
  have agree : ∀ j ≤ c.index, Corresponds Eq tokens tokens' j := fun j le =>
    corresponds_of_take inside (List.forall₂_eq_eq_eq ▸ same) le
  obtain ⟨past', c', trace', turns, befores, now⟩ :=
    trace.exists_sameWay (fun _ _ => congrArg _) agree trace.index_le
  obtain rfl := now.eq
  have here := agree c.index (Nat.le_refl _)
  have turn : tables.turn tokens c = tables.turn tokens' c :=
    turn_eq tables now (lookahead_eq (fun _ _ => congrArg _) here)
  have read : tokens[c.index]? = some tokens[c.index] := Array.getElem?_eq_getElem inside
  have read' : tokens'[c.index]? = some tokens[c.index] := by
    have related := here.read
    rw [read] at related
    generalize tokens'[c.index]? = found at related ⊢
    cases related with
    | some same => rw [same]
  have cause : unexpected tokens c = (.unexpectedToken tokens[c.index] : ParseFailure T N P) := by
    rw [unexpected, read]
  have cause' : unexpected tokens' c = (.unexpectedToken tokens[c.index] : ParseFailure T N P) := by
    rw [unexpected, read']
  refine ⟨_, read, ends ▸ congrArg Except.error cause, ?_⟩
  have fails := step_of_error (turn ▸ finds : (tables.turn tokens' c).action = .error)
  rw [ends, cause, counted, turn, turns]
  exact .intro trace' (cause' ▸ fails ▸ .failed _)

/-- The terminals up to a token decide what a parser does until that token is consumed or the run
fails at it: over two lists that agree so far, it takes the same turns from the same states, with
trees of the same shape on the stack. So a token that is refused by an error in the tables is
refused for all lists that begin in the same way, by the same run with its message and its counters;
and lists with the same terminals throughout are both accepted or both refused, with the same
counters and with trees that differ in spans only. -/
theorem parse_causal (tables : ParseTables T N P) :
    (∀ (tokens tokens' : TokenList T) (k : Nat), k < tokens.size →
      (tokens.toList.take (k + 1)).map Token.terminal =
        (tokens'.toList.take (k + 1)).map Token.terminal →
      ∀ past c, Trace tables tokens past c → (∀ d ∈ past, d.index ≤ k) →
        ∃ past' c', SameWay Token.SameTerminal tables tokens tokens' past past' c c' ∧
          (c.index ≤ k → SameTurn Token.SameTerminal tables tokens tokens' c c')) ∧
    (∀ (tokens tokens' : TokenList T) (i : Nat), i < tokens.size →
      tokens.toList.take (i + 1) = tokens'.toList.take (i + 1) →
      (tables.parse tokens).RefusedAt i →
        ∃ t, tokens[i]? = some t ∧ (tables.parse tokens).result = .error (.unexpectedToken t) ∧
          ComesTo tables tokens' (tables.parse tokens)) ∧
    (∀ tokens tokens' : TokenList T,
      tokens.toList.map Token.terminal = tokens'.toList.map Token.terminal →
        (tables.parse tokens).Alike Token.SameTerminal (tables.parse tokens') ∧
        (tables.parse tokens).final.counters = (tables.parse tokens').final.counters) := by
  have terminals : ∀ a b : Token T, a.SameTerminal b → a.terminal = b.terminal := fun _ _ => id
  have related {ts us : List (Token T)} (same : ts.map Token.terminal = us.map Token.terminal) :
      List.Forall₂ Token.SameTerminal ts us := by
    rw [← List.forall₂_eq_eq_eq, List.forall₂_map_left_iff, List.forall₂_map_right_iff] at same
    exact same
  refine ⟨?_, ?_, ?_⟩
  · intro tokens tokens' k inside same past c trace unread
    have agree : ∀ i ≤ k, Corresponds Token.SameTerminal tokens tokens' i := fun i le =>
      corresponds_of_take inside (related same) le
    obtain ⟨past', c', way⟩ := trace.exists_sameWay terminals agree unread
    refine ⟨past', c', way, fun le => ?_⟩
    exact sameTurn_of_alike terminals way.now (agree _ le) (by omega)
  · intro tokens tokens' i inside same refused
    obtain ⟨t, read, result, halts⟩ := halts_of_refusedAt inside same refused
    exact ⟨t, read, result, halts.comesTo⟩
  · intro tokens tokens' same
    have alike := parse_alike tables terminals (related same)
    refine ⟨alike, ?_⟩
    obtain ⟨_, _, _, index, shifts, reductions, ambiguities⟩ := alike.final
    rw [Configuration.counters, index, shifts, reductions, ambiguities]
    rfl

/-- An item and a semicolon, which no list goes on with. -/
def stopped : TokenList ItemList.Lexeme := #[⟨.item, ⟨0, 1⟩⟩, ⟨.stop, ⟨2, 3⟩⟩]

def stoppedEarly : TokenList ItemList.Lexeme := stopped.push ⟨.pair, ⟨4, 6⟩⟩

def stoppedElsewhere : TokenList ItemList.Lexeme := #[⟨.item, ⟨3, 4⟩⟩, ⟨.stop, ⟨7, 8⟩⟩]

/-- The parser of lists behind the empty list, with nothing consumed. -/
def afterNothing : Configuration ItemList.Lexeme ItemList.Phrase :=
  { state := ⟨1⟩, below := [⟨0⟩], trees := [.node .list []], reductions := 1 }

def afterItem : Configuration ItemList.Lexeme ItemList.Phrase :=
  { state := ⟨2⟩, below := [⟨1⟩, ⟨0⟩], trees := [.leaf ⟨.item, ⟨0, 1⟩⟩, .node .list []]
    index := 1, shifts := 1, reductions := 1 }

/-- The item is read in the same way wherever it is, and the semicolon is refused whatever comes
behind it. -/
theorem parse_causal_stopped :
    (Trace ItemList.parseTables stopped [afterNothing, ItemList.parseTables.initial]
        afterItem ∧
      ∃ past c, SameWay Token.SameTerminal ItemList.parseTables stopped stoppedElsewhere
        [afterNothing, ItemList.parseTables.initial] past afterItem c) ∧
    ((ItemList.parseTables.parse stopped).RefusedAt 1 ∧
      ItemList.parseTables.parse stoppedEarly = ItemList.parseTables.parse stopped) ∧
    (ItemList.parseTables.parse stopped).Alike Token.SameTerminal
      (ItemList.parseTables.parse stoppedElsewhere) := by
  obtain ⟨decides, refuses, agrees⟩ := parse_causal ItemList.parseTables
  have trace : Trace ItemList.parseTables stopped [afterNothing, ItemList.parseTables.initial]
      afterItem := .next (.next .start rfl) rfl
  have unread : ∀ d ∈ [afterNothing, ItemList.parseTables.initial], d.index ≤ 0 := by
    intro d mem
    simp only [List.mem_cons, List.not_mem_nil, or_false] at mem
    obtain rfl | rfl := mem <;> exact Nat.le_refl 0
  have refused : (ItemList.parseTables.parse stopped).RefusedAt 1 := ⟨rfl, rfl⟩
  refine ⟨⟨trace, ?_⟩, ⟨refused, ?_⟩, (agrees stopped stoppedElsewhere rfl).1⟩
  · obtain ⟨past, c, way, _⟩ :=
      decides stopped stoppedElsewhere 0 (by decide) rfl _ _ trace unread
    exact ⟨past, c, way⟩
  · obtain ⟨_, _, _, comes⟩ := refuses stopped stoppedEarly 1 (by decide) rfl refused
    exact comes.parse_eq (by decide)

end ParseTables

end TableParsing

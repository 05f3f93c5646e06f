import ImpLang.Tree

namespace ImpLang

namespace Command

def names : List String :=
  [":parse", ":env", ":procs", ":help"]

def helpLines : List String :=
  ["REPL Commands:",
   "  :parse <stmt>     - Show the parsed AST of a statement",
   "  :env              - Show variable bindings",
   "  :procs            - Show declared procedures",
   "  :help             - Show this help",
   "  quit;             - Exit REPL",
   "",
   "Statements:",
   "  x := 1 + 2;                          - Assignment",
   "  print x * 3;                         - Print a value",
   "  if x < 5 then print 1; else print 2; fi",
   "  procedure f(a) print a; endproc      - Declare a procedure",
   "  call f(42);                          - Call a procedure",
   "  do x := 1; print x; od;              - Sequence",
   "",
   "Operators: " ++ " ".intercalate (Op.all.map Op.symbol)]

end Command

namespace Completion

/-- All words that can be completed: the reserved words in order, then the commands. -/
def candidates : List String :=
  reservedWords.mergeSort (fun a b => a ≤ b) ++ Command.names

def of (text : String) : List String :=
  candidates.filter fun word => text.toList.isPrefixOf word.toList

end Completion

end ImpLang

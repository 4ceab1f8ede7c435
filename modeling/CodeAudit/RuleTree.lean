namespace CodeAudit

inductive RuleTree where
  | rule
  | named (names : List String)
  | listed (parts : List RuleTree)
  deriving Inhabited

namespace RuleTree

mutual

def count : RuleTree → Nat
  | rule => 1
  | named names => 1 + names.length
  | listed parts => 1 + countAll parts

def countAll : List RuleTree → Nat
  | [] => 0
  | x :: xs => x.count + countAll xs

end

end RuleTree

end CodeAudit

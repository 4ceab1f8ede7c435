import CodeAudit.Pattern.Match

/-!
Shapes of comments, directives, declarations and statements, as patterns. They look at the first
characters of a construct and not at its whole grammar.
-/

namespace CodeAudit.Shape

open Pattern

def blanks : Pattern := many .blank
def blanks1 : Pattern := many1 .blank
def word : Pattern := many1 .word
def openBrace : Pattern := lit ['{']
def closeBrace : Pattern := lit ['}']

def indented (p : Pattern) : Pattern := many (.among [' ', '\t', '\r']) ++ p

def lineComment : Pattern := "//" ++ many .inLine
def blockComment : Pattern := "/*" ++ few .any ++ "*/"

def templateArguments : Pattern :=
  "<" ++ many1 (.either .word (.either .blank (.among ['<', '>', ':', ',', '*', '&']))) ++ ">"

def qualifiedName : Pattern := opt (word ++ "::") ++ word

def typeEnd : Pattern := alt (blanks ++ many1 (.among ['*', '&']) ++ blanks) blanks1

def typeName : Pattern :=
  group "type" (alt ("long" ++ blanks1 ++ "long") qualifiedName) ++
    opt (group "template" templateArguments) ++ opt ("::" ++ word) ++ typeEnd

def variableName : Pattern := group "variable" word

def variableDeclaration : Pattern :=
  opt ("static" ++ blanks1) ++ opt ("const" ++ blanks1) ++ opt ("struct" ++ blanks1) ++
    typeName ++ variableName

def staticMember : Pattern := typeName ++ word ++ "::" ++ word ++ variableName

def genericPointer : Pattern :=
  word ++ "<" ++ blanks ++ word ++ blanks ++ "*" ++ blanks ++ ">"

def rawArray : Pattern := word ++ blanks1 ++ word ++ "[" ++ many .decimal ++ "]"

def stdContainer : Pattern :=
  "std::" ++ group "type" (oneOf ["string", "vector", "map", "array"])

def function : Pattern :=
  opt (oneOf ["virtual", "static", "inline"] ++ blanks) ++ typeName ++
    group "function" word ++ blanks ++ "("

def operator : Pattern :=
  opt ("static" ++ blanks1) ++ qualifiedName ++ opt templateArguments ++
    many1 (.either .blank (.among ['*', '&'])) ++ "operator" ++
    many1 (.either .blank (.among ['+', '-', '*', '/', '!', '=', '<', '>'])) ++ "("

def constructor : Pattern := word ++ blanks ++ "("

def destructor : Pattern :=
  opt ("virtual" ++ blanks1) ++ "~" ++ word ++ "(" ++ opt "void" ++ ")"

def constructorBody : Pattern := word ++ "::" ++ word ++ "("
def destructorBody : Pattern := word ++ "::~" ++ word ++ "("

def methodBody : Pattern :=
  typeName ++ word ++ "::" ++ word ++ blanks ++
    opt (oneOf [one (.among ['+', '-', '*', '/', '%', '=']), "++", "--", "=="]) ++ "("

def parameter : Pattern :=
  blanks ++ opt ("const" ++ blanks1) ++ qualifiedName ++
    opt ("<" ++ many1 (.either .word (.either .blank (.among ['<', '>', ':', ',']))) ++ ">") ++
    many1 (.either .blank (.among ['*', '&'])) ++ word ++ ","

def classHead : Pattern := "class" ++ blanks1 ++ opt (word ++ blanks1) ++ group "class" word
def classForward : Pattern := classHead ++ ";"
def friend : Pattern := "friend"
def access : Pattern := oneOf ["public", "protected", "private", "signals", "slots"]
def objectMark : Pattern := "Q_OBJECT"
def property : Pattern := "Q_PROPERTY(" ++ few1 .inLine ++ ")"
def struct : Pattern := "struct" ++ blanks ++ many .word ++ blanks ++ openBrace

def enum : Pattern :=
  "enum" ++ blanks ++ many .word ++ blanks ++ openBrace ++ few .any ++ closeBrace ++ blanks ++
    many .word ++ ";"

def enumBlock : Pattern := "CIT_BEGIN_ENUM(" ++ word ++ ")" ++ few1 .any ++ "CIT_END_ENUM"

def define : Pattern := "#define"
def macroName : Pattern := word ++ opt ("(" ++ few1 .inLine ++ ")")
def ownInclude : Pattern :=
  "#include" ++ blanks1 ++ "\"" ++ opt (group "include" (many1 .inLine)) ++ "\""
def systemInclude : Pattern :=
  "#include" ++ blanks1 ++ "<" ++ opt (group "include" (many1 .inLine)) ++ ">"
def conditional : Pattern := oneOf ["#ifdef", "#endif", "#if"]
def typedef : Pattern := "typedef"
def usingNamespace : Pattern := "using namespace " ++ few1 .any ++ ";"

def ifHead : Pattern := "if" ++ blanks ++ "("
def forHead : Pattern :=
  "for" ++ blanks ++ "(" ++ few .any ++ ";" ++ few .any ++ ";" ++ few .any ++ ")" ++
    few .blank ++ openBrace
def whileHead : Pattern := "while" ++ blanks ++ "(" ++ few1 .any ++ ")" ++ blanks ++ openBrace
def switchHead : Pattern := "switch" ++ blanks ++ "(" ++ few1 .any ++ ")" ++ blanks ++ openBrace
def doHead : Pattern := "do" ++ blanks ++ openBrace
def foreachHead : Pattern := "foreach" ++ blanks ++ "("
def deleteStatement : Pattern := "delete" ++ few1 .any ++ ";"
def emitStatement : Pattern := "emit" ++ blanks1 ++ few1 .inLine ++ ";"
def returnStatement : Pattern := "return " ++ few1 .any ++ ";"
def call : Pattern := word ++ "("
def assignment : Pattern := variableName ++ blanks ++ "="
def stream : Pattern :=
  many1 .inLine ++ blanks ++ oneOf ["<<", ">>"] ++ blanks ++ one .inLine ++
    many1 (.other (.among [';']))
def plainCast : Pattern :=
  alt blanks "(" ++ "(" ++ blanks ++ word ++ blanks ++ opt "*" ++ blanks ++ ")" ++ blanks ++ word
def rawMemory : Pattern :=
  indented (oneOf ["memset", "memcpy"] ++ "(" ++ many1 .inLine ++ ")")

end CodeAudit.Shape

import CodeAudit.Text.Basic

namespace CodeAudit

inductive StdContainer where
  | string
  | vector
  | map
  | array
  deriving DecidableEq, Repr

namespace StdContainer

def all : List StdContainer := [string, vector, map, array]

def name : StdContainer → String
  | string => "string"
  | vector => "vector"
  | map => "map"
  | array => "array"

def capitalName : StdContainer → String
  | string => "String"
  | vector => "Vector"
  | map => "Map"
  | array => "Array"

def ofText? (s : Text) : Option StdContainer :=
  all.find? fun c => s == c.name.toList

end StdContainer

inductive Rule where
  | classLead
  | classCapital
  | inheritanceColon
  | memberLead
  | parameterSpace
  | functionLead
  | localLead
  | macroLead
  | macroCapitals
  | looseEnum
  | staticLead
  | globalLead
  | shortName
  | farMark
  | rawPointer
  | rawArray
  | plainCast
  | rawMemory
  | longStatement (keyword : String)
  | includeOrder
  | objectMarkLast
  | virtualDestructor
  | stdContainer (container : StdContainer)
  | foreignSelector
  deriving DecidableEq, Repr

namespace Rule

def message : Rule → String
  | classLead => "类名称必须以cit开头"
  | classCapital => "cit后面的字符必须以大写字母开头"
  | inheritanceColon => "类继承的冒号前后必须要有空格"
  | memberLead => "类成员变量必须以m_开头"
  | parameterSpace => "不同的函数参数之间最少要留一个空格"
  | functionLead => "函数名称必须以cit开头"
  | localLead => "局部变量必须以l_开头"
  | macroLead => "宏定义必须以CIT_开头"
  | macroCapitals => "宏定义必须大写"
  | looseEnum => "单独定义的枚举要使用CIT_BEGIN_ENUM和CIT_END_ENUM"
  | staticLead => "static变量以s_开头"
  | globalLead => "全局变量以g_开头"
  | shortName => "变量名称太短"
  | farMark => "*或者&必须紧跟在变量类型后面"
  | rawPointer => "指针建议使用QScoped_pointer或者QShared_pointer"
  | rawArray => "数组使用QVector或者QVarLengthArray"
  | plainCast => "类型转换使用dynamic_cast,static_cast和reinterpret_cast"
  | rawMemory => "memset,memcpy使用memset_s和memcpy_s"
  | longStatement keyword => keyword ++ "语句建议不超过10行"
  | includeOrder => "include顺序错误，应该把系统库放到前面"
  | objectMarkLast => "Q_OBJECT必须放在类的结尾"
  | virtualDestructor => "析构函数建议是virtual"
  | stdContainer container => "std::" ++ container.name ++ "使用Q" ++ container.capitalName
  | foreignSelector => "未用类名"

end Rule

structure Report where
  line : Int
  rule : Rule
  context : Option Text := none
  path : Option Text := none
  deriving DecidableEq, Repr

def reportLine (path : Option String) (line : Int) (context message : Option String) : String :=
  let path := path.getD "None"
  let message := message.getD "None"
  match context with
  | some context => s!"{path}({line}): < {context} >======{message}"
  | none => s!"{path}({line}): {message}"

def Report.render (r : Report) : String :=
  reportLine (r.path.map String.ofList) r.line (r.context.map String.ofList) (some r.rule.message)

end CodeAudit

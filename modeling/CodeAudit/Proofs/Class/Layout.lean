import CodeAudit.Class
import CodeAudit.Proofs.Bracket.Balanced
import CodeAudit.Proofs.Text.Identifier
import Mathlib.Data.List.Infix

namespace CodeAudit.Class

inductive Access where
  | everyone
  | heirs
  | itself
  deriving DecidableEq, Repr

def Access.word : Access → Text
  | everyone => "public".toList
  | heirs => "protected".toList
  | itself => "private".toList

inductive Member where
  | access (level : Access)
  | field (type name : Text)
  | method (type name parameters : Text)
  | constructor (parameters : Text)
  | destructor (isVirtual : Bool)
  deriving DecidableEq, Repr

def reserved : List Text :=
  ["public", "protected", "private", "signals", "slots", "friend", "typedef", "Q_"].map
    String.toList

namespace Member

def declaration (type name : Text) : Text := type ++ ' ' :: name

def destructorHead (className : Text) (isVirtual : Bool) : Text :=
  (if isVirtual then "virtual ".toList else []) ++ '~' :: className ++ ['(', ')']

def text (className : Text) : Member → Text
  | access level => level.word ++ [':']
  | field type name => declaration type name ++ [';']
  | method type name parameters => declaration type name ++ '(' :: parameters ++ [')', ';']
  | constructor parameters => className ++ '(' :: parameters ++ [')', ';']
  | destructor isVirtual => destructorHead className isVirtual ++ [';']

def Unreserved (className : Text) (m : Member) : Prop :=
  ∀ word ∈ reserved, ¬word <+: m.text className

instance (className : Text) (m : Member) : Decidable (m.Unreserved className) :=
  inferInstanceAs (Decidable (∀ word ∈ reserved, ¬word <+: m.text className))

def WellFormed (className : Text) (m : Member) : Prop :=
  match m with
  | access _ | destructor _ => True
  | field type name =>
    type.isIdentifier = true ∧ name.isIdentifier = true ∧ m.Unreserved className
  | method type name parameters =>
    type.isIdentifier = true ∧ name.isIdentifier = true ∧ Bracket.paren.Balanced parameters ∧
      m.Unreserved className
  | constructor parameters => Bracket.paren.Balanced parameters ∧ m.Unreserved className

def reports (className : Text) (line : Int) : Member → List Report
  | field type name =>
    if name.length < 3 then [⟨line, .shortName, some (declaration type name), none⟩]
    else if "m_".toList <+: name then []
    else [⟨line, .memberLead, some (declaration type name), none⟩]
  | destructor isVirtual =>
    if "virtual".toList <:+: destructorHead className isVirtual then []
    else [⟨line, .virtualDestructor, some (destructorHead className isVirtual), none⟩]
  | access _ | method _ _ _ | constructor _ => []

end Member

def membersText (className : Text) (members : List (Text × Member)) : Text :=
  members.flatMap fun x => x.1 ++ x.2.text className

def memberReports (className s : Text) : (a : Nat) → List (Text × Member) → List Report
  | _, [] => []
  | a, (blanks, m) :: rest =>
    m.reports className (s.lineOf (a + blanks.length : Nat)) ++
      memberReports className s (a + blanks.length + (m.text className).length) rest

structure Layout where
  name : Text
  gap : Text
  members : List (Text × Member)
  last : Text
  name_isIdentifier : name.isIdentifier = true
  name_length : 4 ≤ name.length
  gap_isBlank : ∀ c ∈ gap, Text.isBlank c = true
  members_isBlank : ∀ x ∈ members, ∀ c ∈ x.1, Text.isBlank c = true
  members_wellFormed : ∀ x ∈ members, x.2.WellFormed name
  last_isBlank : ∀ c ∈ last, Text.isBlank c = true

namespace Layout

def head (l : Layout) : Text := "class ".toList ++ l.name ++ l.gap ++ ['{']

def text (l : Layout) : Text := l.head ++ membersText l.name l.members ++ l.last ++ ['}', ';']

def nameReports (l : Layout) (line : Int) : List Report :=
  (if "cit".toList <+: l.name then [] else [⟨line, .classLead, some l.name, none⟩]) ++
    if l.name[3]?.any fun c => c.isUpper || c.isDigit then []
    else [⟨line, .classCapital, some l.name, none⟩]

def reports (l : Layout) (s : Text) (a : Nat) (line : Int) : List Report :=
  l.nameReports line ++ memberReports l.name s (a + l.head.length) l.members

end Layout

end CodeAudit.Class

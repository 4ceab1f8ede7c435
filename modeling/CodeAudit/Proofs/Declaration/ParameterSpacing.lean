import CodeAudit.Proofs.Declaration.Member

/-!
Declarations of functions with two or more parameters. The rounds over the parameters start at the
opening parenthesis and end there, so that no spacing is reported; behind the parenthesis they would
report every spacing.
-/

namespace CodeAudit.Declaration

open Pattern Shape

variable {s t n v w : Text} {a : Nat} {c : Context}

structure Parameter where
  type : Text
  name : Text
  type_isIdentifier : type.isIdentifier = true
  name_isIdentifier : name.isIdentifier = true

def Parameter.text (p : Parameter) : Text := p.type ++ ' ' :: p.name

structure NextParameter extends Parameter where
  gap : Text
  gap_isBlank : ∀ b ∈ gap, Text.isBlank b = true

def NextParameter.text (p : NextParameter) : Text := ',' :: p.gap ++ p.toParameter.text

structure FunctionDeclaration where
  type : Text
  name : Text
  first : Parameter
  second : NextParameter
  others : List NextParameter
  type_isIdentifier : type.isIdentifier = true
  name_isIdentifier : name.isIdentifier = true

namespace FunctionDeclaration

def head (d : FunctionDeclaration) : Text := d.type ++ ' ' :: d.name

def parameters (d : FunctionDeclaration) : Text :=
  d.first.text ++ (d.second :: d.others).flatMap NextParameter.text

def signature (d : FunctionDeclaration) : Text := d.head ++ '(' :: d.parameters ++ [')']

def text (d : FunctionDeclaration) : Text := d.signature ++ [';']

def nameReports (d : FunctionDeclaration) (line : Int) : List Report :=
  if "cit".toList <+: d.name ∨ d.name = "main".toList then []
  else [⟨line, .functionLead, some d.signature, none⟩]

end FunctionDeclaration

def commasSpaced : Text → Bool
  | [] => true
  | c :: w => (c != ',' || w.head? == some ' ' || w.head? == some '\n') && commasSpaced w

def Reports (f : Form) (s : Text) (i : Int) (c : Context) (rule : Rule) : Prop :=
  ∃ x c', f s i c = (.ok (some x), c') ∧ ∃ r ∈ x.reports, r.rule = rule

theorem reports_iff_of_found {f : Form} {i : Int} {x : Finding} {c' : Context} {rule : Rule}
    (h : f s i c = (.ok (some x), c')) : Reports f s i c rule ↔ ∃ r ∈ x.reports, r.rule = rule := by
  constructor
  · rintro ⟨y, d, hy, hrule⟩
    rw [h] at hy
    obtain ⟨hxy, -⟩ := Prod.mk.inj hy
    obtain rfl := Option.some.inj (Except.ok.inj hxy)
    exact hrule
  · intro hrule
    exact ⟨x, c', h, hrule⟩

theorem function_declared (ht : t.isIdentifier = true) (hn : n.isIdentifier = true)
    (hw : Bracket.paren.Balanced w) (hs : s.drop a = t ++ ' ' :: n ++ '(' :: w ++ ')' :: ';' :: v) :
    function s a c = (.ok (some ⟨⟨a, (a + (t ++ ' ' :: n).length + w.length + 2 : Nat)⟩,
      (functionRule? n).toList.map fun rule =>
        ⟨c.line, rule, some (t ++ ' ' :: n ++ '(' :: w ++ [')']), none⟩⟩), c) := by
  obtain ⟨m, hm, hparameters⟩ := functionHead?_found ht hn hw hs
  have hlast : ((a + (t ++ ' ' :: n).length + w.length + 1 : Nat) : Int) + 1 =
      (a + (t ++ ' ' :: n).length + w.length + 2 : Nat) := by omega
  have hslice : s.slice a (a + (t ++ ' ' :: n).length + w.length + 2 : Nat) =
      t ++ ' ' :: n ++ '(' :: w ++ [')'] := by
    apply Text.slice_of_drop (v := ';' :: v)
    · simp [hs]
    · simp only [List.length_append, List.length_cons, List.length_nil]
      omega
  have hcurrent : (currentLine : Lint Int) c = (.ok c.line, c) := rfl
  simp only [function, hm]
  rw [Lint.bind_ok (hparameters _ c)]
  simp only [hlast, hslice, headEnd_of_drop (drop_after_head hs)]
  rw [Lint.bind_ok hcurrent]
  rfl

namespace FunctionDeclaration

variable (d : FunctionDeclaration)

theorem soft_has_text (p : Parameter) : ∀ b ∈ p.text, soft.has b = true :=
  soft_has_declared (word_reads p.type_isIdentifier) p.name_isIdentifier

theorem soft_has_parameters {b : Char} (hb : b ∈ d.parameters) : b = ',' ∨ soft.has b = true := by
  rcases List.mem_append.mp hb with hb | hb
  · exact .inr (soft_has_text d.first b hb)
  · obtain ⟨p, -, hb⟩ := List.mem_flatMap.mp hb
    rcases List.mem_cons.mp hb with rfl | hb
    · exact .inl rfl
    · rcases List.mem_append.mp hb with hb | hb
      · have hblank : CharClass.blank.has b = true := p.gap_isBlank b hb
        exact .inr (by rw [soft, CharClass.has, hblank, Bool.or_true])
      · exact .inr (soft_has_text p.toParameter b hb)

theorem parameters_balanced : Bracket.paren.Balanced d.parameters := by
  apply Bracket.Balanced.of_forall
  intro b hb
  constructor <;> rintro rfl <;> exact absurd (d.soft_has_parameters hb) (by decide)

theorem functionRule?_reports (line : Int) : ((functionRule? d.name).toList.map fun rule =>
    (⟨line, rule, some d.signature, none⟩ : Report)) = d.nameReports line := by
  rw [functionRule?_eq, nameReports]
  split <;> rfl

theorem rule_of_mem_nameReports {line : Int} {r : Report} (hr : r ∈ d.nameReports line) :
    r.rule = .functionLead := by
  rw [nameReports] at hr
  split at hr
  · exact absurd hr List.not_mem_nil
  · rw [List.mem_singleton.mp hr]

theorem drop_text (before after : Text) : (before ++ d.text ++ after).drop before.length =
    d.type ++ ' ' :: d.name ++ '(' :: d.parameters ++ ')' :: ';' :: after := by
  rw [List.append_assoc, List.drop_left]
  simp [text, signature, head]

theorem rounds_behind_paren (before after : Text) (states : Nat) :
    rounds (Variable.parameterRound (before ++ d.text ++ after)
      (before.length + d.head.length + d.parameters.length + 1 : Nat)) (states + 1)
      (before.length + d.head.length + 1 : Nat) = .ok (some .parameterSpace) := by
  have hparameters : d.parameters = [] ++ (d.first.type ++ ' ' :: d.first.name) ++
      ',' :: (d.second.gap ++ d.second.toParameter.text ++ d.others.flatMap NextParameter.text) := by
    simp [parameters, Parameter.text, NextParameter.text]
  have hdrop : (before ++ d.text ++ after).drop (before.length + d.head.length + 1) =
      d.parameters ++ ')' :: ';' :: after := by
    have hsplit : (before ++ d.text ++ after).drop before.length =
        d.head ++ ['('] ++ (d.parameters ++ ')' :: ';' :: after) := by
      rw [d.drop_text]
      simp [head]
    have h := Text.drop_of_drop_append hsplit
    rwa [List.length_append, ← Nat.add_assoc] at h
  apply rounds_done
  rw [hparameters] at hdrop
  apply Variable.parameterRound_of_drop d.first.type_isIdentifier d.first.name_isIdentifier
    (by simp) hdrop
  rw [← hparameters]
  omega

end FunctionDeclaration

/-- Neither form reports the spacing of the parameters. This is right only if every comma has a space
or a line break after it; behind the opening parenthesis the rounds would report every spacing. -/
theorem parameter_spacing_unreported (d : FunctionDeclaration) (before after : Text) (c : Context) :
    let s := before ++ d.text ++ after
    let opening := before.length + d.head.length
    let closing := opening + d.parameters.length + 1
    method s before.length c = (.ok (some ⟨⟨before.length, (closing + 1 : Nat)⟩, []⟩), c) ∧
    function s before.length c =
      (.ok (some ⟨⟨before.length, (closing + 1 : Nat)⟩, d.nameReports c.line⟩), c) ∧
    (∀ f ∈ [method, function], ¬Reports f s before.length c .parameterSpace ∧
      ((Reports f s before.length c .parameterSpace ↔ commasSpaced d.parameters = false) ↔
        commasSpaced d.parameters = true)) ∧
    Variable.parameterRule? s opening closing = .ok none ∧
    rounds (Variable.parameterRound s closing) (s.length + 2) (opening + 1 : Nat) =
      .ok (some .parameterSpace) := by
  intro s opening closing
  have hdrop := d.drop_text before after
  have hmethod : method s before.length c =
      (.ok (some ⟨⟨before.length, (closing + 1 : Nat)⟩, []⟩), c) :=
    method_found d.type_isIdentifier d.name_isIdentifier d.parameters_balanced hdrop
  have hfunction : function s before.length c =
      (.ok (some ⟨⟨before.length, (closing + 1 : Nat)⟩, d.nameReports c.line⟩), c) := by
    rw [← d.functionRule?_reports]
    exact function_declared d.type_isIdentifier d.name_isIdentifier d.parameters_balanced hdrop
  have hsilent : ∀ f ∈ [method, function], ¬Reports f s before.length c .parameterSpace := by
    intro f hf
    rcases List.mem_pair.mp hf with rfl | rfl
    · rw [reports_iff_of_found hmethod]
      rintro ⟨r, hr, -⟩
      exact absurd hr List.not_mem_nil
    · rw [reports_iff_of_found hfunction]
      rintro ⟨r, hr, hrule⟩
      rw [d.rule_of_mem_nameReports hr] at hrule
      cases hrule
  refine ⟨hmethod, hfunction, ?_, ?_, d.rounds_behind_paren before after _⟩
  · intro f hf
    exact ⟨hsilent f hf, by simp [hsilent f hf]⟩
  · rw [List.append_assoc (d.type ++ ' ' :: d.name)] at hdrop
    exact Variable.parameterRule?_of_drop (Text.drop_of_drop_append hdrop)

theorem unspaced_comma_passes :
    let s := "void citF(int a,int b);".toList
    let c : Context := { file := some "sample.cpp".toList, line := 1 }
    commasSpaced s = false ∧
      ∀ f ∈ [method, function], f s 0 c = (.ok (some ⟨⟨0, 22⟩, []⟩), c) := by
  refine ⟨by decide, ?_⟩
  intro f hf
  rcases List.mem_pair.mp hf with rfl | rfl
  · exact Prod.ext (Scan.eq_ok_of_toOption (by decide +kernel)) (by decide +kernel)
  · exact Prod.ext (Scan.eq_ok_of_toOption (by decide +kernel)) (by decide +kernel)

end CodeAudit.Declaration

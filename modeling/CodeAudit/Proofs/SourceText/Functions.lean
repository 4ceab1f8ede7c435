import CodeAudit.Proofs.Body.Locals
import CodeAudit.Proofs.SourceText.Rounds
import CodeAudit.Proofs.SourceText.Shapes

namespace CodeAudit.SourceText

open Pattern Shape Body

variable {s u v before : Text} {a k : Nat} {old : Int} {r : List Report} {c : Context}

structure FreeFunction where
  type : Text
  name : Text
  parameters : Text
  gap : Text
  indent : Text
  locals : List LocalVariable
  type_isIdentifier : type.isIdentifier = true
  name_isIdentifier : name.isIdentifier = true
  type_ne_class : type ≠ "class".toList
  type_not_typedef : ¬"typedef".toList <+: type
  parameters_flat : '(' ∉ parameters ∧ ')' ∉ parameters
  parameters_plain : '<' ∉ parameters ∧ '>' ∉ parameters
  gap_isBlank : ∀ b ∈ gap, Text.isBlank b = true
  indent_isBlank : ∀ b ∈ indent, Text.isBlank b = true

namespace FreeFunction

def head (f : FreeFunction) : Text := f.type ++ ' ' :: f.name ++ '(' :: f.parameters ++ [')']

def opened (f : FreeFunction) : Text := f.head ++ f.gap ++ '{' :: f.indent

def text (f : FreeFunction) : Text := f.opened ++ localsText f.locals ++ ['}', '\n']

def reports (before : Text) (f : FreeFunction) : List Report :=
  (if "cit".toList <+: f.name ∨ f.name = "main".toList then []
    else [⟨lineAfter before, .functionLead, some f.head, none⟩]) ++
      localsReports (before ++ f.opened) f.locals

end FreeFunction

def functionsText (functions : List (Text × FreeFunction)) : Text :=
  functions.flatMap fun x => x.1 ++ x.2.text

def functionsReports : (before : Text) → List (Text × FreeFunction) → List Report
  | _, [] => []
  | before, (blanks, f) :: rest =>
    f.reports (before ++ blanks) ++ functionsReports (before ++ (blanks ++ f.text)) rest

structure FunctionsText where
  functions : List (Text × FreeFunction)
  last : Text
  blanks_isBlank : ∀ x ∈ functions, ∀ b ∈ x.1, Text.isBlank b = true
  last_isBlank : ∀ b ∈ last, Text.isBlank b = true

namespace FunctionsText

def text (x : FunctionsText) : Text := functionsText x.functions ++ x.last

def reports (x : FunctionsText) : List Report := functionsReports [] x.functions

end FunctionsText

namespace FreeFunction

variable (f : FreeFunction)

theorem text_append (v : Text) :
    f.text ++ v = f.head ++ (f.gap ++
      '{' :: (f.indent ++ (localsText f.locals ++ '}' :: '\n' :: v))) := by
  simp [text, opened]

theorem head_length : f.head.length =
    (f.type ++ ' ' :: f.name).length + f.parameters.length + 2 := by
  simp only [head, List.length_append, List.length_cons, List.length_nil]
  omega

theorem functionHead_found (hs : s.drop a = f.text ++ v) :
    ∃ m, Declaration.functionHead? s a = some (m, some f.name) ∧
      ∀ c, Declaration.parameters s m.stop a c =
        (.ok (((a + f.head.length : Nat) : Int) - 1, []), c) := by
  rw [f.text_append, head, List.append_assoc, List.singleton_append] at hs
  have hbalanced : Bracket.paren.Balanced f.parameters := by
    apply Bracket.Balanced.of_forall
    intro b hb
    constructor <;> rintro rfl
    · exact f.parameters_flat.1 hb
    · exact f.parameters_flat.2 hb
  have hlast : ((a + f.head.length : Nat) : Int) - 1 =
      (a + (f.type ++ ' ' :: f.name).length + f.parameters.length + 1 : Nat) := by
    rw [f.head_length]
    omega
  obtain ⟨m, hm, hparameters⟩ := Declaration.functionHead?_found f.type_isIdentifier
    f.name_isIdentifier hbalanced hs
  rw [hlast]
  exact ⟨m, hm, hparameters a⟩

theorem function_found (hangle : ∀ b ∈ s, b ∉ ['<', '>']) (hline : c.line = lineAfter before)
    (hs : s = before ++ (f.text ++ v)) :
    (Declaration.function s before.length c).1 =
      .ok (some ⟨⟨before.length, ((before ++ (f.opened ++ localsText f.locals)).length : Nat)⟩,
        f.reports before⟩) := by
  have hdrop : s.drop before.length = f.text ++ v := by rw [hs, List.drop_left]
  obtain ⟨m, hm, hparameters⟩ := f.functionHead_found hdrop
  rw [f.text_append] at hdrop hs
  have hafter : (((before.length + f.head.length : Nat) : Int) - 1) + 1 =
      (before.length + f.head.length : Nat) := by omega
  have hslice : s.slice before.length (before.length + f.head.length : Nat) = f.head :=
    Text.slice_of_drop hdrop rfl
  have hend : Declaration.headEnd s (before.length + f.head.length : Nat) =
      .ok (.brace (before.length + f.head.length + f.gap.length : Nat)) :=
    Declaration.headEnd_of_brace f.gap_isBlank (Text.drop_of_drop_append hdrop)
  have hplace : before.length + f.head.length + f.gap.length =
      (before ++ (f.head ++ f.gap)).length := by
    rw [List.length_append, List.length_append, Nat.add_assoc]
  have hbody := check_locals (c := { c with line := s.lineOf (before ++ (f.head ++ f.gap)).length })
    f.locals hangle f.indent_isBlank rfl (v := v) (by simp [hs])
  have hstop : (before ++ (f.head ++ f.gap)).length + (f.indent ++ localsText f.locals).length + 1 =
      (before ++ (f.opened ++ localsText f.locals)).length := by
    simp only [opened, List.length_append, List.length_cons]
    omega
  have hbefore : before ++ (f.head ++ f.gap) ++ '{' :: f.indent = before ++ f.opened := by
    simp [opened]
  rw [hstop, hbefore] at hbody
  have hown : ((some f.name).bind Declaration.functionRule?).toList.map
      (fun rule => (⟨lineAfter before, rule, some f.head, none⟩ : Report)) =
        if "cit".toList <+: f.name ∨ f.name = "main".toList then []
        else [⟨lineAfter before, .functionLead, some f.head, none⟩] := by
    rw [Option.bind_some, Declaration.functionRule?_eq]
    split <;> rfl
  have hcurrent : ∀ c, (currentLine : Lint Int) c = (.ok c.line, c) := fun _ => rfl
  simp only [Declaration.function, hm]
  rw [Lint.bind_ok (hparameters c)]
  simp only [hafter, hslice, hend]
  rw [Lint.bind_ok (hcurrent c), hline]
  simp only [Lint.lift_ok_bind, hplace, hown]
  rw [Lint.setLine_bind, Lint.bind_ok (Prod.ext hbody rfl)]
  rfl

theorem first_forms_found (hangle : ∀ b ∈ s, b ∉ ['<', '>']) (hline : c.line = lineAfter before)
    (hs : s = before ++ (f.text ++ v)) :
    ∃ c', Form.first forms s before.length c =
      (.ok (some ⟨⟨before.length, ((before ++ (f.opened ++ localsText f.locals)).length : Nat)⟩,
        f.reports before⟩), c') := by
  have hdrop : s.drop before.length = f.type ++ ' ' :: f.name ++ '(' ::
      (f.parameters ++ ')' :: (f.gap ++
        '{' :: (f.indent ++ (localsText f.locals ++ '}' :: '\n' :: v)))) := by
    rw [hs, List.drop_left, f.text_append]
    simp [head]
  refine ⟨_, first_forms_of_found (k := 11) rfl ?_
    (Prod.ext (f.function_found hangle hline hs) rfl) (by simp)⟩
  exact absent_of_declared f.type_isIdentifier f.name_isIdentifier f.type_ne_class
    f.type_not_typedef (by decide) (by decide) hdrop

theorem exists_head_text : ∃ d w, f.text = d :: w ∧ Text.isBlank d = false := by
  obtain ⟨d, w, hd⟩ := List.exists_cons_of_ne_nil (Text.isIdentifier_ne_nil f.type_isIdentifier)
  have hink : Text.isBlank d = false :=
    Text.not_isBlank_of_isIdentifier f.type_isIdentifier (by simp [hd])
  obtain ⟨rest, hrest⟩ : ∃ rest, f.text = f.type ++ rest := by simp [text, opened, head]
  exact ⟨d, w ++ rest, by rw [hrest, hd]; rfl, hink⟩

end FreeFunction

theorem functionsText_cons (w : Text) (f : FreeFunction) (rest : List (Text × FreeFunction)) :
    functionsText ((w, f) :: rest) = w ++ (f.text ++ functionsText rest) := by
  rw [functionsText, List.flatMap_cons, List.append_assoc]
  rfl

theorem rounds_functions {functions : List (Text × FreeFunction)} {last : Text}
    (hangle : ∀ b ∈ s, b ∉ ['<', '>']) (hu : ∀ b ∈ u, Text.isBlank b = true)
    (hblanks : ∀ x ∈ functions, ∀ b ∈ x.1, Text.isBlank b = true)
    (hlast : ∀ b ∈ last, Text.isBlank b = true) (hk : functions.length < k)
    (hold : old < before.length) (hs : s = before ++ (u ++ (functionsText functions ++ last))) :
    (rounds (round s) k ⟨old, before.length, r⟩ c).1 =
      .ok (r ++ functionsReports (before ++ u) functions) := by
  induction functions generalizing before u r c k old with
  | nil =>
    obtain ⟨k, rfl⟩ := Nat.exists_eq_succ_of_ne_zero (Nat.ne_of_gt hk)
    have hblank : ∀ b ∈ s.drop before.length, Text.isBlank b = true := by
      rw [hs, List.drop_left]
      exact List.forall_mem_append.mpr ⟨hu, hlast⟩
    rw [rounds_of_blank hblank, functionsReports, List.append_nil]
  | cons x rest ih =>
    obtain ⟨w, f⟩ := x
    obtain ⟨k, rfl⟩ := Nat.exists_eq_succ_of_ne_zero (Nat.ne_of_gt (Nat.zero_lt_of_lt hk))
    obtain ⟨d, w', hd, hink⟩ := f.exists_head_text
    have hblank : ∀ b ∈ u ++ w, Text.isBlank b = true :=
      List.forall_mem_append.mpr ⟨hu, hblanks (w, f) List.mem_cons_self⟩
    have hs' : s = before ++ (u ++ w) ++ (f.text ++ (functionsText rest ++ last)) := by
      rw [hs, functionsText_cons]
      simp
    have hdrop : s.drop before.length = u ++ w ++ d :: (w' ++ (functionsText rest ++ last)) := by
      rw [hs', List.append_assoc, List.drop_left, hd]
      rfl
    have hplace : before.length + (u ++ w).length = (before ++ (u ++ w)).length :=
      List.length_append.symm
    obtain ⟨c', hfirst⟩ := f.first_forms_found
      (c := { c with line := s.lineOf (before ++ (u ++ w)).length }) hangle
      (congrArg Nat.cast (lineOf_of_append hs')) hs'
    have hnext : ((before ++ (u ++ w) ++ (f.opened ++ localsText f.locals)).length : Int) + 1 =
        (before ++ (u ++ w) ++ (f.opened ++ localsText f.locals ++ ['}'])).length := by
      simp only [List.length_append, List.length_singleton]
      omega
    have hbefore : before ++ (u ++ w) ++ (f.opened ++ localsText f.locals ++ ['}']) ++ ['\n'] =
        before ++ u ++ (w ++ f.text) := by
      simp [FreeFunction.text]
    rw [← hplace] at hfirst
    rw [rounds_of_found hdrop hblank hink hold hfirst, functionsReports, ← hbefore,
      ← List.append_assoc r, List.append_assoc before u w]
    simp only [hnext]
    refine ih ?_ ?_ (Nat.lt_of_succ_lt_succ hk) ?_ ?_
    · exact List.all_eq_true.mp (by decide)
    · exact fun x hx => hblanks x (List.mem_cons_of_mem _ hx)
    · simp only [List.length_append, List.length_singleton]
      omega
    · rw [hs']
      simp [FreeFunction.text]

theorem length_le_functionsText (functions : List (Text × FreeFunction)) :
    functions.length ≤ (functionsText functions).length := by
  induction functions with
  | nil => exact Nat.zero_le _
  | cons x rest ih =>
    obtain ⟨w, f⟩ := x
    obtain ⟨d, w', hd, -⟩ := f.exists_head_text
    rw [functionsText_cons, hd]
    simp only [List.length_append, List.length_cons]
    omega

theorem not_angle {b : Char} (h : Text.isBlank b = true ∨ Text.isWord b = true ∨ b = ';') :
    b ∉ ['<', '>'] := by
  intro hb
  simp only [List.mem_cons, List.not_mem_nil, or_false] at hb
  rcases hb with rfl | rfl <;> exact absurd h (by decide)

theorem FreeFunction.text_not_angle (f : FreeFunction) : ∀ b ∈ f.text, b ∉ ['<', '>'] := by
  intro b hb
  have hname : ∀ {w : Text}, w.isIdentifier = true → b ∈ w → b ∉ ['<', '>'] :=
    fun hw hb => not_angle (.inr (.inl (Text.isWord_of_isIdentifier hw hb)))
  simp only [FreeFunction.text, FreeFunction.opened, FreeFunction.head, List.mem_append,
    List.mem_cons, List.not_mem_nil, or_false] at hb
  rcases hb with ((((((hb | rfl | hb) | rfl | hb) | rfl) | hb) | rfl | hb) | hb) | rfl | rfl
  · exact hname f.type_isIdentifier hb
  · decide
  · exact hname f.name_isIdentifier hb
  · decide
  · simp only [List.mem_cons, List.not_mem_nil, or_false]
    rintro (rfl | rfl)
    · exact f.parameters_plain.1 hb
    · exact f.parameters_plain.2 hb
  · decide
  · exact not_angle (.inl (f.gap_isBlank b hb))
  · decide
  · exact not_angle (.inl (f.indent_isBlank b hb))
  · exact not_angle (mem_localsText hb)
  · decide
  · decide

theorem FunctionsText.text_not_angle (x : FunctionsText) : ∀ b ∈ x.text, b ∉ ['<', '>'] := by
  intro b hb
  rcases List.mem_append.mp hb with hb | hb
  · obtain ⟨y, hy, hb⟩ := List.mem_flatMap.mp hb
    rcases List.mem_append.mp hb with hb | hb
    · exact not_angle (.inl (x.blanks_isBlank y hy b hb))
    · exact y.2.text_not_angle b hb
  · exact not_angle (.inl (x.last_isBlank b hb))

theorem check_functionsText (x : FunctionsText) (c : Context) :
    (check x.text 0 c).1 = .ok x.reports := by
  have hlength : x.functions.length < 2 * x.text.length + 3 := by
    have hle := length_le_functionsText x.functions
    rw [FunctionsText.text, List.length_append]
    omega
  have hrun : (rounds (round x.text) (2 * x.text.length + 3) ⟨-1, ([] : Text).length, []⟩ c).1 =
      .ok ([] ++ functionsReports ([] ++ []) x.functions) :=
    rounds_functions x.text_not_angle (by simp) x.blanks_isBlank x.last_isBlank hlength (by decide)
      rfl
  exact hrun

def localVariables : List LocalVariable :=
  [⟨⟨"int".toList, "l_a".toList, by decide, by decide, by decide, by decide, by decide⟩,
      "\n  ".toList, List.all_eq_true.mp (by decide), by decide⟩,
    ⟨⟨"using".toList, "l".toList, by decide, by decide, by decide, by decide, by decide⟩,
      " \n".toList, List.all_eq_true.mp (by decide), by decide⟩]

def twoFunctions : FunctionsText where
  functions := [
    ("\n".toList, {
      type := "static".toList
      name := "run".toList
      parameters := "int a,\n\x7b;".toList
      gap := "\t\n".toList
      indent := "\n  ".toList
      locals := localVariables
      type_isIdentifier := by decide
      name_isIdentifier := by decide
      type_ne_class := by decide
      type_not_typedef := by decide
      parameters_flat := by decide
      parameters_plain := by decide
      gap_isBlank := List.all_eq_true.mp (by decide)
      indent_isBlank := List.all_eq_true.mp (by decide) }),
    ("\t\n".toList, {
      type := "enum".toList
      name := "citX".toList
      parameters := []
      gap := []
      indent := []
      locals := localVariables.drop 1
      type_isIdentifier := by decide
      name_isIdentifier := by decide
      type_ne_class := by decide
      type_not_typedef := by decide
      parameters_flat := by decide
      parameters_plain := by decide
      gap_isBlank := List.all_eq_true.mp (by decide)
      indent_isBlank := List.all_eq_true.mp (by decide) })]
  last := []
  blanks_isBlank := by
    intro x hx
    apply List.all_eq_true.mp
    revert x
    decide
  last_isBlank := List.all_eq_true.mp (by decide)

theorem check_twoFunctions :
    twoFunctions.text = ("\nstatic run(int a,\n\x7b;)\t\n\x7b\n  int l_a;\n  using l; \n\x7d\n" ++
      "\t\nenum citX()\x7busing l; \n\x7d\n").toList ∧
    (check twoFunctions.text 0 {}).1 = .ok [
      ⟨2, .functionLead, some "static run(int a,\n\x7b;)".toList, none⟩,
      ⟨6, .localLead, some "using l;".toList, none⟩,
      ⟨9, .localLead, some "using l;".toList, none⟩] := by
  constructor
  · decide +kernel
  · refine (check_functionsText twoFunctions {}).trans ?_
    apply congrArg Except.ok
    decide +kernel

end CodeAudit.SourceText

import CodeAudit.Proofs.Declaration.Global
import CodeAudit.Proofs.SourceText.Shapes

namespace CodeAudit.SourceText

open Pattern Shape

inductive Line where
  | blank (w : Text)
  | define (name : Text) (value : Option Text)
  | systemInclude (path : Text)
  | ownInclude (path : Text)
  | global (isStatic : Bool) (type name : Text)
  | classForward (name : Text)
  | usingNamespace (name : Text)
  | conditional (directive : Text)
  deriving DecidableEq, Repr

namespace Line

def text : Line → Text
  | blank w => w
  | define name none => "#define ".toList ++ name
  | define name (some value) => "#define ".toList ++ name ++ ' ' :: value
  | systemInclude path => "#include <".toList ++ path ++ ['>']
  | ownInclude path => "#include \"".toList ++ path ++ ['"']
  | global isStatic type name => Declaration.variableText isStatic type name ++ [';']
  | classForward name => "class ".toList ++ name ++ [';']
  | usingNamespace name => "using namespace ".toList ++ name ++ [';']
  | conditional directive => directive

def WellFormed (l : Line) : Prop :=
  '\n' ∉ l.text ∧
    match l with
    | blank w => w.all Text.isBlank = true
    | define name _ => name.isPlainWord = true ∧ l.text.getLast? ≠ some '\\'
    | systemInclude path | ownInclude path => path ≠ [] ∧ '"' ∉ path ∧ '<' ∉ path ∧ '>' ∉ path
    | global _ type name =>
      type.isIdentifier = true ∧ name.isIdentifier = true ∧ type ≠ "class".toList ∧
        ¬"typedef".toList <+: type ∧ ¬"static".toList <:+ type
    | classForward name | usingNamespace name => name.isIdentifier = true
    | conditional directive => "#if".toList <+: directive ∨ "#endif".toList <+: directive

instance : (l : Line) → Decidable l.WellFormed
  | blank _ | define _ _ | systemInclude _ | ownInclude _ | global _ _ _ | classForward _
  | usingNamespace _ | conditional _ => inferInstanceAs (Decidable (_ ∧ _))

def endsSystem (file : Text) : Line → Bool
  | ownInclude path => Text.lower (Path.stem file) != Text.lower (Path.stem path)
  | _ => false

def reports (line : Int) (late : Bool) : Line → List Report
  | define name _ =>
    if ¬"CIT_".toList <+: name then [⟨line, .macroLead, some name, none⟩]
    else if name.any Char.isLower then [⟨line, .macroCapitals, some name, none⟩]
    else []
  | systemInclude path =>
    if late then [⟨line, .includeOrder, some (systemInclude path).text, none⟩] else []
  | global isStatic type name => Declaration.variableReports isStatic type name line
  | blank _ | ownInclude _ | classForward _ | usingNamespace _ | conditional _ => []

end Line

def linesText (lines : List Line) : Text := ['\n'].intercalate (lines.map Line.text)

def linesReports (file : Text) : (earlier : List Line) → List Line → List Report
  | _, [] => []
  | earlier, l :: rest =>
    l.reports (earlier.length + 1 : Nat) (earlier.any (·.endsSystem file)) ++
      linesReports file (earlier ++ [l]) rest

structure FlatText where
  lines : List Line
  wellFormed : ∀ l ∈ lines, l.WellFormed

namespace FlatText

def text (x : FlatText) : Text := linesText x.lines

def reports (x : FlatText) (file : Text) : List Report := linesReports file [] x.lines

end FlatText

namespace Line

variable {l : Line} {s v w t n : Text} {a : Nat} {file : Text}

def IsFound (file : Text) (l : Line) : Prop :=
  ∀ (s v : Text) (a : Nat) (c : Context), s.drop a = l.text ++ v → (∀ b ∈ v.head?, b = '\n') →
    c.file = some file →
      ∃ stop : Nat, (stop + 1 = a + l.text.length ∨ stop = a + l.text.length) ∧
        Form.first forms s a c =
          (.ok (some ⟨⟨a, stop⟩, l.reports c.line c.ownIncludes⟩),
            { c with ownIncludes := c.ownIncludes || l.endsSystem file })

theorem kept {c : Context} (hl : l.endsSystem file = false) :
    { c with ownIncludes := c.ownIncludes || l.endsSystem file } = c := by
  rw [hl, Bool.or_false]

theorem define_isFound {name : Text} {value : Option Text} (h : (define name value).WellFormed) :
    (define name value).IsFound file := by
  intro s v a c hs hv _
  rw [kept rfl]
  obtain ⟨w, hw, hsep⟩ : ∃ w, (define name value).text = "#define ".toList ++ name ++ w ∧
      ∀ b ∈ w.head?, b = ' ' := by
    cases value with
    | none => exact ⟨[], (List.append_nil _).symm, by simp⟩
    | some value => exact ⟨' ' :: value, rfl, by simp⟩
  obtain ⟨hbreak, hname, hlast⟩ := h
  rw [hw] at hs hbreak hlast ⊢
  refine ⟨_, .inr rfl, ?_⟩
  have hlast' : (name ++ w).getLast? ≠ some '\\' := by
    rw [List.append_assoc, List.getLast?_append] at hlast
    obtain ⟨d, hd⟩ : ∃ d, (name ++ w).getLast? = some d := by
      refine ⟨_, List.getLast?_eq_some_getLast ?_⟩
      simp [Text.isPlainWord_ne_nil hname]
    rwa [hd, Option.some_or, ← hd] at hlast
  have hfound := Declaration.define_found (c := c) hname (fun hmem => hbreak (by simp [hmem])) hsep
    hlast' hv hs
  have hreports : (Declaration.macroRule? name).toList.map
      (fun rule => (⟨c.line, rule, some name, none⟩ : Report)) =
        (define name value).reports c.line c.ownIncludes := by
    rw [Declaration.macroRule?_eq hname, reports]
    split
    · rfl
    · split <;> rfl
  rw [hreports] at hfound
  exact first_forms_of_found (k := 0) rfl (by simp) hfound (by simp)

theorem isFound_of_mark {w : Text} {e : Char} (htext : l.text = w ++ [e])
    (h : ∀ (s v : Text) (a : Nat) (c : Context), s.drop a = w ++ e :: v →
      (∀ b ∈ v.head?, b = '\n') → c.file = some file →
        Form.first forms s a c =
          (.ok (some ⟨⟨a, (a + w.length : Nat)⟩, l.reports c.line c.ownIncludes⟩),
            { c with ownIncludes := c.ownIncludes || l.endsSystem file })) : l.IsFound file := by
  intro s v a c hs hv hfile
  have hlength : a + w.length + 1 = a + l.text.length := by
    rw [htext, List.length_append, List.length_singleton, Nat.add_assoc]
  refine ⟨a + w.length, .inl hlength, h s v a c ?_ hv hfile⟩
  rw [hs, htext, List.append_assoc, List.singleton_append]

theorem systemInclude_isFound {path : Text} (h : (systemInclude path).WellFormed) :
    (systemInclude path).IsFound file := by
  obtain ⟨hbreak, hne, -⟩ := h
  have hpath : '\n' ∉ path := fun hmem =>
    hbreak (List.mem_append_left _ (List.mem_append_right _ hmem))
  apply isFound_of_mark (w := "#include <".toList ++ path) rfl
  intro s v a c hs hv _
  rw [kept rfl]
  refine first_forms_of_found (k := 2) rfl ?_ (Declaration.systemInclude_found hpath hne hv hs)
    (by simp)
  exact absent_of_lead (b := '#') (d := 'i') (k := .among ['#']) (u := [])
    (v := "nclude <".toList ++ path ++ '>' :: v) (by decide) (List.all_eq_true.mp (by decide)) hs

theorem ownInclude_isFound {path : Text} (h : (ownInclude path).WellFormed) :
    (ownInclude path).IsFound file := by
  obtain ⟨hbreak, hne, -⟩ := h
  have hpath : '\n' ∉ path := fun hmem =>
    hbreak (List.mem_append_left _ (List.mem_append_right _ hmem))
  apply isFound_of_mark (w := "#include \"".toList ++ path) rfl
  intro s v a c hs hv hfile
  refine first_forms_of_found (k := 2) rfl ?_ (Declaration.ownInclude_found hpath hne hv hfile hs)
    (by simp)
  exact absent_of_lead (b := '#') (d := 'i') (k := .among ['#']) (u := [])
    (v := "nclude \"".toList ++ path ++ '"' :: v) (by decide) (List.all_eq_true.mp (by decide)) hs

theorem classForward_isFound {name : Text} (h : name.isIdentifier = true) :
    (classForward name).IsFound file := by
  apply isFound_of_mark (w := "class ".toList ++ name) rfl
  intro s v a c hs _ _
  rw [kept rfl]
  refine first_forms_of_found (k := 4) rfl ?_ (Declaration.classForward_found h hs) (by simp)
  exact absent_of_lead (b := 'c') (d := ' ') (k := .word) (u := "lass".toList)
    (v := name ++ ';' :: v) (by decide) (List.all_eq_true.mp (by decide)) (by rw [hs]; rfl)

theorem usingNamespace_isFound {name : Text} (h : name.isIdentifier = true) :
    (usingNamespace name).IsFound file := by
  apply isFound_of_mark (w := "using namespace ".toList ++ name) rfl
  intro s v a c hs _ _
  rw [kept rfl]
  refine first_forms_of_found (k := 8) rfl ?_ (Declaration.usingNamespace_found h hs) (by simp)
  have hsoft : ∀ b ∈ "using namespace ".toList ++ name, soft.has b = true := by
    intro b hb
    rcases List.mem_append.mp hb with hb | hb
    · exact List.all_eq_true.mp (show "using namespace ".toList.all soft.has = true by decide) b hb
    · exact soft_has_of_word (word_has_of_isIdentifier h b hb)
  exact absent_of_lead (b := 'u') (d := ';') (k := soft) (by decide) hsoft hs

theorem conditional_isFound {directive : Text} (h : (conditional directive).WellFormed) :
    (conditional directive).IsFound file := by
  intro s v a c hs hv _
  rw [kept rfl]
  obtain ⟨hbreak, hlead⟩ := h
  refine ⟨_, .inr rfl, first_forms_of_found (k := 6) rfl ?_
    (Declaration.conditional_found hlead hbreak hv hs) (by simp)⟩
  rcases hlead with ⟨r, rfl⟩ | ⟨r, rfl⟩
  · exact absent_of_lead (b := '#') (d := 'f') (k := .among ['#', 'i']) (u := ['i'])
      (v := r ++ v) (by decide) (List.all_eq_true.mp (by decide)) hs
  · exact absent_of_lead (b := '#') (d := 'e') (k := .among ['#']) (u := [])
      (v := "ndif".toList ++ r ++ v) (by decide) (List.all_eq_true.mp (by decide)) hs

theorem global_isFound {isStatic : Bool} {type name : Text}
    (h : (global isStatic type name).WellFormed) : (global isStatic type name).IsFound file := by
  obtain ⟨-, htype, hname, hclass, htypedef, hend⟩ := h
  apply isFound_of_mark (w := Declaration.variableText isStatic type name) rfl
  intro s v a c hs _ _
  rw [kept rfl]
  refine first_forms_of_found (k := 12) rfl ?_
    (Declaration.globalVariable_found isStatic htype hname hend hs) (by simp)
  cases isStatic with
  | true =>
    exact absent_of_lead (b := 's') (d := ';') (k := soft) (by decide)
      (Declaration.soft_has_variableText true htype hname) hs
  | false => exact absent_of_declared htype hname hclass htypedef (by decide) (by decide) hs

theorem WellFormed.isFound (h : l.WellFormed) (hink : ∀ w, l ≠ blank w) : l.IsFound file := by
  cases l with
  | blank w => exact absurd rfl (hink w)
  | define name value => exact define_isFound h
  | systemInclude path => exact systemInclude_isFound h
  | ownInclude path => exact ownInclude_isFound h
  | global isStatic type name => exact global_isFound h
  | classForward name => exact classForward_isFound h.2
  | usingNamespace name => exact usingNamespace_isFound h.2
  | conditional directive => exact conditional_isFound h

theorem WellFormed.exists_head_text (h : l.WellFormed) (hink : ∀ w, l ≠ blank w) :
    ∃ d w, l.text = d :: w ∧ Text.isBlank d = false := by
  cases l with
  | blank w => exact absurd rfl (hink w)
  | define name value => cases value <;> exact ⟨'#', _, rfl, by decide⟩
  | systemInclude path => exact ⟨'#', _, rfl, by decide⟩
  | ownInclude path => exact ⟨'#', _, rfl, by decide⟩
  | global isStatic type name =>
    cases isStatic with
    | true => exact ⟨'s', _, rfl, by decide⟩
    | false =>
      have htype : type.isIdentifier = true := h.2.1
      obtain ⟨d, w, rfl⟩ := List.exists_cons_of_ne_nil (Text.isIdentifier_ne_nil htype)
      exact ⟨d, _, rfl, Text.not_isBlank_of_isIdentifier htype List.mem_cons_self⟩
  | classForward name => exact ⟨'c', _, rfl, by decide⟩
  | usingNamespace name => exact ⟨'u', _, rfl, by decide⟩
  | conditional directive =>
    rcases h.2 with ⟨w, rfl⟩ | ⟨w, rfl⟩
    · exact ⟨'#', _, rfl, by decide⟩
    · exact ⟨'#', _, rfl, by decide⟩

end Line

end CodeAudit.SourceText

import CodeAudit.Body
import CodeAudit.Proofs.Declaration.Member
import CodeAudit.Proofs.Statement.Bounds

namespace CodeAudit.Body

open Pattern Shape

variable {s t n u v w : Text} {a : Nat} {c : Context}

def formShapes : List (Form × List Pattern) := [
  (measured "if" Statement.ifStatement, [indented ifHead]),
  (.ofSpan Statement.deleteStatement, [deleteStatement]),
  (measured "for" Statement.forStatement, [indented forHead]),
  (.ofScan Statement.foreachStatement, [foreachHead]),
  (.ofSpan Statement.streamStatement, [stream]),
  (measured "while" Statement.whileStatement, [indented whileHead]),
  (.ofScan Statement.doStatement, [doHead]),
  (.ofSpan Statement.emitStatement, [emitStatement]),
  (measured "switch" Statement.switchStatement, [indented switchHead]),
  (rawMemory, [Shape.rawMemory]),
  (.ofSpan Statement.callStatement, [call]),
  (.ofSpan Statement.returnStatement, [returnStatement]),
  (assignment, [Shape.assignment])]

theorem forms_eq : forms = formShapes.map Prod.fst ++ [plainCast, declaration] := rfl

theorem measured_absent {keyword : String} {form : Text → Int → Scan (Option Span)}
    (h : form s a = .ok none) : (measured keyword form).Absent s a := by
  intro c
  simp only [measured, h]
  rfl

theorem rawMemory_absent (ha : a ≤ s.length) (h : Shape.rawMemory.matchAt s a = none) :
    rawMemory.Absent s a := by
  intro c
  simp only [rawMemory, Variable.rawMemory, matchBefore_of_matchAt (by decide) ha h]
  rfl

theorem absent_of_formShapes {x : Form × List Pattern} (ha : a ≤ s.length) (hx : x ∈ formShapes)
    (h : ∀ p ∈ x.2, p.matchAt s a = none) : x.1.Absent s a := by
  simp only [formShapes, List.mem_cons, List.not_mem_nil, or_false] at hx
  rcases hx with rfl | rfl | rfl | rfl | rfl | rfl | rfl | rfl | rfl | rfl | rfl | rfl | rfl <;>
    simp only [List.forall_mem_singleton] at h
  · exact measured_absent (by rw [Statement.ifStatement, h]; rfl)
  · exact Form.absent_ofSpan (by simp only [Statement.deleteStatement, Statement.whole, h]; rfl)
  · exact measured_absent (by rw [Statement.forStatement, Statement.braced_of_none h]; rfl)
  · intro c; simp only [Form.ofScan, Statement.foreachStatement, h]; rfl
  · exact Form.absent_ofSpan (by simp only [Statement.streamStatement, Statement.upTo, h]; rfl)
  · exact measured_absent (Statement.braced_of_none h)
  · intro c; simp only [Form.ofScan, Statement.doStatement, Statement.braced_of_none h]; rfl
  · exact Form.absent_ofSpan (by simp only [Statement.emitStatement, Statement.whole, h]; rfl)
  · exact measured_absent (Statement.braced_of_none h)
  · exact rawMemory_absent ha h
  · exact Form.absent_ofSpan (by simp only [Statement.callStatement, Statement.whole, h]; rfl)
  · exact Form.absent_ofSpan (by simp only [Statement.returnStatement, Statement.whole, h]; rfl)
  · intro c; simp only [assignment, h]; rfl

theorem plainCast_absent (hs : s.drop a = w ++ '\n' :: v) (hw : '\n' ∉ w) (hparen : '(' ∉ w) :
    plainCast.Absent s a := by
  have hline : (s.take (a + w.length)).drop a = w := Text.drop_take_eq_of_drop_eq hs rfl
  have hother : ∀ b ∈ (s.take (a + w.length)).drop a, (CharClass.other (.among ['('])).has b = true := by
    intro b hb
    rw [hline] at hb
    have hne : b ≠ '(' := ne_of_mem_of_not_mem hb hparen
    simp [CharClass.has, hne]
  have hsearch : Shape.plainCast.searchBefore s a (a + w.length : Nat) = none :=
    search_of_not_staysIn (by decide) (by decide) hother
  intro c
  simp only [plainCast, Variable.plainCast, Text.find_of_drop hs hw, hsearch]
  rfl

theorem plainCast_absent_of_unbroken (h : '\n' ∉ s) : plainCast.Absent s a := by
  have hsearch : Shape.plainCast.searchBefore s a (-1) = none :=
    search_of_not_staysIn (k := .among []) (by decide) (by decide) (by simp)
  intro c
  simp only [plainCast, Variable.plainCast, Text.find_of_not_mem h, hsearch]
  rfl

theorem stream_absent (ha : a ≤ s.length) (hs : ∀ b ∈ s.drop a, b ∉ ['<', '>']) :
    stream.matchAt s a = none := by
  apply matchAt_of_not_staysIn (k := .other (.among ['<', '>'])) (by decide) (by decide) ha
  intro b hb
  simpa [CharClass.has] using hs b hb

theorem absent_of_take {k : Nat} {g : Form} (ha : a ≤ s.length)
    (habsent : ∀ p ∈ (formShapes.take k).flatMap Prod.snd, p.matchAt s a = none)
    (hg : g ∈ (formShapes.take k).map Prod.fst) : g.Absent s a := by
  obtain ⟨y, hy, rfl⟩ := List.mem_map.mp hg
  apply absent_of_formShapes ha (List.mem_of_mem_take hy)
  intro p hp
  exact habsent p (List.mem_flatMap.mpr ⟨y, hy, hp⟩)

theorem first_forms_of_shape {k : Nat} {f : Form} {fs : List Form} {x : Finding} {c' : Context}
    (ha : a ≤ s.length) (hk : forms = (formShapes.take k).map Prod.fst ++ f :: fs)
    (habsent : ∀ p ∈ (formShapes.take k).flatMap Prod.snd, p.matchAt s a = none)
    (hf : f s a c = (.ok (some x), c')) (hx : x.start ≠ -1) :
    Form.first forms s a c = (.ok (some x), c') := by
  rw [hk]
  exact Form.first_of_found (fun _ hg => absent_of_take ha habsent hg) hf hx

theorem first_forms_of_declaration {x : Finding} {c' : Context} (ha : a ≤ s.length)
    (habsent : ∀ p ∈ formShapes.flatMap Prod.snd, p.matchAt s a = none)
    (hcast : plainCast.Absent s a) (hf : declaration s a c = (.ok (some x), c')) (hx : x.start ≠ -1) :
    Form.first forms s a c = (.ok (some x), c') := by
  have hsplit : forms = (formShapes.map Prod.fst ++ [plainCast]) ++ declaration :: [] := rfl
  rw [hsplit]
  apply Form.first_of_found _ hf hx
  intro g hg
  rcases List.mem_append.mp hg with hg | hg
  · exact absent_of_take (k := formShapes.length) ha habsent hg
  · rw [List.mem_singleton.mp hg]
    exact hcast

theorem first_forms_of_absent (ha : a ≤ s.length)
    (habsent : ∀ p ∈ variableDeclaration :: formShapes.flatMap Prod.snd, p.matchAt s a = none)
    (hcast : plainCast.Absent s a) : Form.first forms s a c = (.ok none, c) := by
  apply Form.first_of_absent
  intro g hg
  rw [forms_eq] at hg
  rcases List.mem_append.mp hg with hg | hg
  · apply absent_of_take (k := formShapes.length) ha _ hg
    intro p hp
    exact habsent p (List.mem_cons_of_mem _ hp)
  · simp only [List.mem_cons, List.not_mem_nil, or_false] at hg
    rcases hg with rfl | rfl
    · exact hcast
    · intro c
      simp only [declaration, habsent variableDeclaration List.mem_cons_self]
      rfl

def wordLed : List Pattern := [deleteStatement, emitStatement, returnStatement]

theorem matchAt_returnStatement_of_ne (ht : word.Reads t) (hne : t ≠ "return".toList)
    (hs : s.drop a = t ++ ' ' :: v) : returnStatement.matchAt s a = none := by
  have ha : a ≤ s.length := Text.place_le_of_drop hs
  apply matchAt_of_openings (by decide) ha
  intro o ho hpre
  obtain rfl : o = "return ".toList := List.mem_singleton.mp ho
  obtain ⟨r, hr⟩ := hpre
  have hsplit : "return".toList ++ ' ' :: r = t ++ ' ' :: v := by
    rw [← hs, ← hr]
    rfl
  exact hne (eq_of_append_blank ht (by decide) (by decide) hsplit).1.symm

theorem matchAt_of_declared {p : Pattern} (ht : word.Reads t) (hn : n.isIdentifier = true)
    (hangle : ∀ b ∈ s.drop a, b ∉ ['<', '>']) (hs : s.drop a = t ++ ' ' :: n ++ ';' :: v)
    (hp : p ∈ formShapes.flatMap Prod.snd) (hled : p ∉ wordLed) : p.matchAt s a = none := by
  have ha : a ≤ s.length := Text.place_le_of_drop hs
  have hcases : ∀ p ∈ formShapes.flatMap Prod.snd,
      p ∈ wordLed ∨ p = stream ∨ p.misses soft ';' = true := by decide
  rcases hcases p hp with h | rfl | h
  · exact absurd h hled
  · exact stream_absent ha hangle
  · exact matchAt_of_misses h (soft_has_declared ht hn) hs

theorem absent_of_declared (ht : word.Reads t) (hn : n.isIdentifier = true)
    (hdelete : ¬"delete".toList <+: t) (hemit : t ≠ "emit".toList) (hreturn : t ≠ "return".toList)
    (hangle : ∀ b ∈ s.drop a, b ∉ ['<', '>']) (hs : s.drop a = t ++ ' ' :: n ++ ';' :: v) :
    ∀ p ∈ formShapes.flatMap Prod.snd, p.matchAt s a = none := by
  have hblank : s.drop a = t ++ ' ' :: (n ++ ';' :: v) := by rw [hs, List.append_assoc]; rfl
  intro p hp
  by_cases hled : p ∈ wordLed
  · simp only [wordLed, List.mem_cons, List.not_mem_nil, or_false] at hled
    rcases hled with rfl | rfl | rfl
    · exact matchAt_of_not_prefix (by decide) rfl (by decide) hdelete hblank
    · exact matchAt_keyword_of_ne (by decide) (.cat (.cat .refl)) (by decide) ht hemit hblank
    · exact matchAt_returnStatement_of_ne ht hreturn hblank
  · exact matchAt_of_declared ht hn hangle hs hp hled

theorem first_forms_of_brace (hangle : ∀ b ∈ s.drop a, b ∉ ['<', '>'])
    (hcast : plainCast.Absent s a) (hs : s.drop a = '}' :: v) :
    Form.first forms s a c = (.ok none, c) := by
  have ha : a ≤ s.length := Text.place_le_of_drop (u := []) hs
  have hcases : ∀ p ∈ variableDeclaration :: formShapes.flatMap Prod.snd,
      p = stream ∨ p.misses (.among []) '}' = true := by decide
  apply first_forms_of_absent ha _ hcast
  intro p hp
  rcases hcases p hp with rfl | h
  · exact stream_absent ha hangle
  · exact matchAt_of_misses (u := []) h (by simp) hs

end CodeAudit.Body

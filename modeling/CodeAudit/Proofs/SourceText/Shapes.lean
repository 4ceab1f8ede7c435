import CodeAudit.Proofs.Lint.Forms
import CodeAudit.Proofs.Shape.Declared
import CodeAudit.SourceText

namespace CodeAudit.SourceText

open Pattern Shape

variable {s t n v w : Text} {a k : Nat} {i : Int} {c : Context}

def formShapes : List (Form × List Pattern) := [
  (Declaration.define, [Shape.define]),
  (Declaration.enum, [Shape.enum]),
  (Declaration.includeFile, [Shape.systemInclude, Shape.ownInclude]),
  (Declaration.typedef, [Shape.typedef]),
  (Class.form, [Shape.classForward, Shape.classHead]),
  (Declaration.memberBody, [Shape.destructorBody, Shape.constructorBody, Shape.methodBody]),
  (.ofSpan Statement.conditional, [Shape.conditional]),
  (.ofSpan (Statement.whole Shape.enumBlock), [Shape.enumBlock]),
  (.ofSpan Statement.usingNamespace, [Shape.usingNamespace]),
  (.ofScan Statement.struct, [Shape.struct]),
  (.ofSpan Statement.staticMember, [Shape.staticMember]),
  (Declaration.function, [Shape.function, Shape.operator]),
  (Declaration.globalVariable, [Shape.variableDeclaration])]

theorem absent_of_formShapes {x : Form × List Pattern} (hx : x ∈ formShapes)
    (h : ∀ p ∈ x.2, p.matchAt s i = none) : x.1.Absent s i := by
  simp only [formShapes, List.mem_cons, List.not_mem_nil, or_false] at hx
  rcases hx with rfl | rfl | rfl | rfl | rfl | rfl | rfl | rfl | rfl | rfl | rfl | rfl | rfl <;>
    simp only [List.forall_mem_cons, List.not_mem_nil, false_implies, implies_true, and_true] at h
  · intro c; simp only [Declaration.define, h]; rfl
  · intro c; simp only [Declaration.enum, h]; rfl
  · intro c; simp only [Declaration.includeFile, h]; rfl
  · intro c; simp only [Declaration.typedef, h]; rfl
  · intro c; simp only [Class.form, Class.check, h]; rfl
  · intro c; simp only [Declaration.memberBody, h]; rfl
  · exact Form.absent_ofSpan (by simp only [Statement.conditional, h, Option.map_none])
  · exact Form.absent_ofSpan (by simp only [Statement.whole, h, Option.map_none])
  · exact Form.absent_ofSpan (by
      simp only [Statement.usingNamespace, Statement.whole, h, Option.map_none])
  · intro c; simp only [Form.ofScan, Statement.struct, Statement.braced, h]; rfl
  · exact Form.absent_ofSpan (by simp only [Statement.staticMember, h, Option.map_none])
  · intro c; simp only [Declaration.function, Declaration.functionHead?, h, Option.map_none]; rfl
  · intro c
    simp only [Declaration.globalVariable, Declaration.variableAt?, h, Option.map_none]
    rfl

theorem first_forms_of_found {f : Form} {ps : List Pattern} {x : Finding} {c' : Context}
    (hk : formShapes[k]? = some (f, ps))
    (habsent : ∀ p ∈ (formShapes.take k).flatMap Prod.snd, p.matchAt s i = none)
    (hf : f s i c = (.ok (some x), c')) (hx : x.start ≠ -1) :
    Form.first forms s i c = (.ok (some x), c') :=
  Form.first_of_shapes (fun _ hy => absent_of_formShapes hy) hk habsent hf hx

theorem matchAt_usingNamespace_of_declared {d : Char} (ht : t.isIdentifier = true)
    (hn : n.isIdentifier = true) (hd : d ∉ "namespace ".toList)
    (hs : s.drop a = t ++ ' ' :: n ++ d :: v) : Shape.usingNamespace.matchAt s a = none := by
  have ha : a ≤ s.length := by have := Text.le_length_of_drop hs; omega
  apply matchAt_of_openings (by decide) ha
  intro o ho hpre
  obtain rfl : o = "using namespace ".toList := List.mem_singleton.mp ho
  obtain ⟨r, hr⟩ := hpre
  have hsplit : "using".toList ++ ' ' :: ("namespace ".toList ++ r) = t ++ ' ' :: (n ++ d :: v) := by
    rw [hs] at hr
    simpa using hr
  have hrest := (eq_of_append_blank (word_reads ht) (by decide) (by decide) hsplit).2
  rcases exists_read_of_append hrest with ⟨z, rfl⟩ | ⟨z, hz⟩
  · exact absurd (Text.not_isBlank_of_isIdentifier hn (c := ' ') (by simp)) (by decide)
  · exact hd (by rw [hz]; simp)

theorem absent_of_lead {ps : List Pattern} {b d : Char} {k : CharClass} {u : Text}
    (hps : ∀ p ∈ ps, p.misses (.among []) b = true ∨ p.misses k d = true)
    (hu : ∀ c ∈ b :: u, k.has c = true) (hs : s.drop a = b :: u ++ d :: v) :
    ∀ p ∈ ps, p.matchAt s a = none := by
  intro p hp
  rcases hps p hp with h | h
  · exact matchAt_of_misses (u := []) h (by simp) hs
  · exact matchAt_of_misses h hu hs

def wordLed : List Pattern :=
  [Shape.typedef, Shape.classForward, Shape.classHead, Shape.usingNamespace]

theorem absent_of_declared {ps : List Pattern} {d : Char} (ht : t.isIdentifier = true)
    (hn : n.isIdentifier = true) (hclass : t ≠ "class".toList) (htypedef : ¬"typedef".toList <+: t)
    (hd : d ∉ "namespace ".toList)
    (hps : ∀ p ∈ ps, p ∈ wordLed ∨ p.misses soft d = true ∨ p.misses .word ' ' = true)
    (hs : s.drop a = t ++ ' ' :: n ++ d :: v) : ∀ p ∈ ps, p.matchAt s a = none := by
  have hblank : s.drop a = t ++ ' ' :: (n ++ d :: v) := by rw [hs, List.append_assoc]; rfl
  intro p hp
  rcases hps p hp with h | h | h
  · simp only [wordLed, List.mem_cons, List.not_mem_nil, or_false] at h
    rcases h with rfl | rfl | rfl | rfl
    · exact matchAt_of_not_prefix (by decide) rfl (by decide) htypedef hblank
    · exact matchAt_keyword_of_ne (by decide) (.cat (.cat (.cat .refl))) (by decide) (word_reads ht)
        hclass hblank
    · exact matchAt_keyword_of_ne (by decide) (.cat (.cat .refl)) (by decide) (word_reads ht) hclass
        hblank
    · exact matchAt_usingNamespace_of_declared ht hn hd hs
  · exact matchAt_of_misses h (soft_has_declared (word_reads ht) hn) hs
  · exact matchAt_of_misses h (word_has_of_isIdentifier ht) hblank

end CodeAudit.SourceText

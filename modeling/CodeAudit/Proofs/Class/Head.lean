import CodeAudit.Proofs.Class.Layout
import CodeAudit.Proofs.Shape.Declared

namespace CodeAudit.Class

open Pattern Shape

variable {s v w n g : Text} {a : Nat}

theorem classLead_reads : classLead.Reads "class ".toList := by
  have h : classLead.Reads ("class".toList ++ [' '] ++ []) :=
    ((show Reads "class" "class".toList from rfl).cat blanks1_reads_space).cat .opt_none
  exact h

theorem exists_last_of_classLead_reads (h : classLead.Reads w) :
    ∃ u c, w = u ++ [c] ∧ Text.isBlank c = true := by
  have hlast : ∀ {x : Text}, blanks1.Reads x → ∃ u c, x = u ++ [c] ∧ Text.isBlank c = true := by
    rintro x ⟨hx, hlen⟩
    have hne : x ≠ [] := List.ne_nil_of_length_pos hlen
    exact ⟨x.dropLast, x.getLast hne, (List.dropLast_concat_getLast hne).symm,
      hx _ (List.getLast_mem hne)⟩
  obtain ⟨_, o, rfl, ⟨x, y, rfl, -, hy⟩, ho⟩ := h
  rcases ho with ⟨p, q, rfl, -, hq⟩ | rfl
  · obtain ⟨u, c, rfl, hc⟩ := hlast hq
    exact ⟨x ++ y ++ (p ++ u), c, by simp, hc⟩
  · obtain ⟨u, c, rfl, hc⟩ := hlast hy
    exact ⟨x ++ u, c, by simp, hc⟩

theorem soft_has_head (hn : n.isIdentifier = true) (hg : ∀ c ∈ g, Text.isBlank c = true) :
    ∀ c ∈ "class ".toList ++ n ++ g, soft.has c = true := by
  intro c hc
  rcases List.mem_append.mp hc with hc | hc
  · rcases List.mem_append.mp hc with hc | hc
    · exact List.all_eq_true.mp (show "class ".toList.all soft.has = true by decide) c hc
    · exact soft_has_of_word (word_has_of_isIdentifier hn c hc)
  · have hb := hg c hc
    simp [soft, CharClass.has, hb]

theorem classLead_reads_length (h : classLead.Reads w) : 6 ≤ w.length := by
  obtain ⟨_, o, rfl, ⟨x, y, rfl, rfl, hy⟩, -⟩ := h
  have hlen : 1 ≤ y.length := hy.2
  have hclass : "class".toList.length = 5 := rfl
  simp only [List.length_append, hclass]
  omega

theorem classLead_reads_eq {e : Char} {r : Text} (hn : n.isIdentifier = true)
    (hg : ∀ c ∈ g, Text.isBlank c = true) (h : classLead.Reads w) (he : Text.isWord e = true)
    (hs : w ++ e :: r = "class ".toList ++ n ++ g ++ '{' :: v) : w = "class ".toList := by
  have hinside : ∃ q, "class ".toList ++ n ++ g = w ++ e :: q := by
    rcases exists_read_of_append hs with ⟨q, hq⟩ | ⟨q, rfl⟩
    · rw [hq, List.append_assoc, List.append_cancel_left_eq] at hs
      cases q with
      | nil => exact absurd ((List.cons.inj hs).1 ▸ he) (by decide)
      | cons b q => exact ⟨q, by rw [hq, (List.cons.inj hs).1]⟩
    · have hleave := leavesWith_of_reads h (soft_has_head hn hg) (by decide)
      exact absurd hleave (by decide)
  obtain ⟨q, hq⟩ := hinside
  have hlead : ∃ z, w = "class ".toList ++ z ∧ n ++ g = z ++ e :: q := by
    rw [List.append_assoc] at hq
    rcases List.append_eq_append_iff.mp hq with ⟨z, rfl, hz⟩ | ⟨z, hz, hrest⟩
    · exact ⟨z, rfl, hz⟩
    · have hlen := classLead_reads_length h
      have hz' := congrArg List.length hz
      rw [List.length_append, show "class ".toList.length = 6 from rfl] at hz'
      obtain rfl : z = [] := List.length_eq_zero_iff.mp (by omega)
      exact ⟨[], by simpa using hz.symm, by simpa using hrest.symm⟩
  obtain ⟨z, rfl, hz⟩ := hlead
  have heg : e ∉ g := by
    intro hmem
    rw [Text.isWord_of_isBlank (hg e hmem)] at he
    exact Bool.false_ne_true he
  have hprefix : ∃ x, n = z ++ x := by
    rcases List.append_eq_append_iff.mp hz with ⟨x, rfl, rfl⟩ | ⟨x, hx, -⟩
    · exact absurd (by simp) heg
    · exact ⟨x, hx⟩
  obtain ⟨x, rfl⟩ := hprefix
  obtain ⟨u, c, hu, hc⟩ := exists_last_of_classLead_reads h
  rcases List.eq_nil_or_concat z with rfl | ⟨z, d, rfl⟩
  · rw [List.append_nil]
  · rw [List.concat_eq_append, ← List.append_assoc] at hu
    have hd : d = c := List.singleton_inj.mp (List.append_inj' hu rfl).2
    rw [← hd, Text.not_isBlank_of_isIdentifier hn (by simp)] at hc
    exact absurd hc Bool.false_ne_true

theorem matchAt_classForward (hn : n.isIdentifier = true) (hg : ∀ c ∈ g, Text.isBlank c = true)
    (hs : s.drop a = "class ".toList ++ n ++ g ++ '{' :: v) :
    classForward.matchAt s a = none :=
  matchAt_of_misses (by decide) (soft_has_head hn hg) hs

theorem matchAt_classHead (hn : n.isIdentifier = true) (hg : ∀ c ∈ g, Text.isBlank c = true)
    (hs : s.drop a = "class ".toList ++ n ++ g ++ '{' :: v) :
    ∃ m, classHead.matchAt s a = some m ∧ m.stop = a + ("class ".toList ++ n).length ∧
      m.groupText? s "class" = some n := by
  have ha : a ≤ s.length := by have := Text.le_length_of_drop hs; omega
  have hafter : ∀ b ∈ (g ++ '{' :: v).head?, CharClass.word.has b = false := by
    intro b hb
    cases g with
    | nil =>
      obtain rfl : '{' = b := Option.some.inj hb
      decide
    | cons d g =>
      obtain rfl : d = b := Option.some.inj hb
      exact Text.isWord_of_isBlank (hg d List.mem_cons_self)
  rw [List.append_assoc _ g] at hs
  obtain ⟨m, hm, -, hstop, -, hname⟩ :=
    matchAt_cat_word "class" (by decide) classLead_reads hn hafter hs ha (by
      intro w e r hr he hwe
      rw [← List.append_assoc _ g] at hwe
      exact classLead_reads_eq hn hg hr he hwe)
  exact ⟨m, hm, hstop, hname⟩

end CodeAudit.Class

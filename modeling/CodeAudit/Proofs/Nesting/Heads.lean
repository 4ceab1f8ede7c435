import CodeAudit.Proofs.Nesting.Layout
import CodeAudit.Proofs.Statement.Bounds
import CodeAudit.Proofs.Statement.Heads

namespace CodeAudit

namespace Nesting

open Pattern

variable {s u v w : Text} {a : Nat} {i : Int} {keyword : String} {p : Pattern}

def heads : List (String × Pattern) :=
  [("if", Shape.ifHead), ("for", Shape.forHead), ("while", Shape.whileHead),
    ("switch", Shape.switchHead)]

theorem heads_isPlain (h : (keyword, p) ∈ heads) : (Shape.indented p).isPlain = true := by
  simp only [heads, List.mem_cons, Prod.mk.injEq, List.not_mem_nil, or_false] at h
  rcases h with ⟨-, rfl⟩ | ⟨-, rfl⟩ | ⟨-, rfl⟩ | ⟨-, rfl⟩ <;> rfl

theorem heads_opens (h : (keyword, p) ∈ heads) :
    Opens (lit keyword.toList ++ Shape.blanks ++ lit ['(']) p := by
  simp only [heads, List.mem_cons, Prod.mk.injEq, List.not_mem_nil, or_false] at h
  rcases h with ⟨rfl, rfl⟩ | ⟨rfl, rfl⟩ | ⟨rfl, rfl⟩ | ⟨rfl, rfl⟩
  · exact .refl
  · exact .cat (.cat (.cat (.cat (.cat (.cat (.cat (.cat .refl)))))))
  · exact .cat (.cat (.cat (.cat .refl)))
  · exact .cat (.cat (.cat (.cat .refl)))

theorem reads_head (h : (keyword, p) ∈ heads) (hr : p.Reads w) :
    ∃ b v, w = keyword.toList ++ b ++ '(' :: v ∧ ∀ c ∈ b, Text.isBlank c = true := by
  obtain ⟨u, v, rfl, hu⟩ := (heads_opens h).exists_reads hr
  obtain ⟨_, _, rfl, ⟨_, b, rfl, rfl, hb, -⟩, rfl⟩ := hu
  exact ⟨b, v, by simp, hb⟩

theorem exists_keyword_of_heads (h : (keyword, p) ∈ heads) :
    ∃ c w, keyword.toList = c :: w ∧ indent.has c = false ∧ '\n' ∉ keyword.toList := by
  have hall : ∀ x ∈ heads, (x.1.toList.head?.any fun c => !indent.has c) = true ∧
      '\n' ∉ x.1.toList := by decide
  obtain ⟨hhead, hbreak⟩ := hall _ h
  cases hk : keyword.toList with
  | nil => simp [hk] at hhead
  | cons c w => exact ⟨c, w, rfl, by simpa [hk] using hhead, hk ▸ hbreak⟩

theorem matchAt_head_eq_none (h : (keyword, p) ∈ heads) (ha : a ≤ s.length)
    (hno : ∀ b v, (∀ c ∈ b, Text.isBlank c = true) →
      (s.drop a).dropWhile indent.has ≠ keyword.toList ++ b ++ '(' :: v) :
    (Shape.indented p).matchAt s a = none := by
  apply matchAt_eq_none (heads_isPlain h) ha
  rintro _ t hs ⟨m, w, rfl, ⟨hm, -⟩, hr⟩
  obtain ⟨b, v, rfl, hb⟩ := reads_head h hr
  obtain ⟨c, k, hk, hc, -⟩ := exists_keyword_of_heads h
  have hm : ∀ c ∈ m, indent.has c = true := hm
  apply hno b (v ++ t) hb
  rw [hs, List.append_assoc, List.dropWhile_append_of_pos hm, hk]
  simp only [List.cons_append]
  rw [List.dropWhile_cons_of_neg (by simp [hc])]
  simp

theorem indent_of_margin (hu : u.all isMargin = true) : ∀ c ∈ u, indent.has c = true := by
  intro c hc
  have h := List.all_eq_true.mp hu c hc
  simp only [isMargin, Bool.or_eq_true, beq_iff_eq] at h
  rcases h with rfl | rfl <;> rfl

theorem dropWhile_margin {c : Char} (hu : u.all isMargin = true) (hc : indent.has c = false) :
    (u ++ c :: v).dropWhile indent.has = c :: v := by
  rw [List.dropWhile_append_of_pos (indent_of_margin hu), List.dropWhile_cons_of_neg (by simp [hc])]

theorem matchAt_head_brace {d : Char} (h : (keyword, p) ∈ heads) (hd : d ∈ ['{', '}'])
    (hu : u.all isMargin = true) (hs : s.drop a = u ++ d :: v) :
    (Shape.indented p).matchAt s a = none := by
  have ha : a ≤ s.length := Text.place_le_of_drop hs
  obtain ⟨hindent, hall⟩ : indent.has d = false ∧ ∀ x ∈ heads, x.1.toList.head? ≠ some d := by
    simp only [List.mem_cons, List.not_mem_nil, or_false] at hd
    rcases hd with rfl | rfl <;> exact ⟨rfl, by decide⟩
  apply matchAt_head_eq_none h ha
  intro b t _ heq
  rw [hs, dropWhile_margin hu hindent] at heq
  obtain ⟨c, k, hk, -⟩ := exists_keyword_of_heads h
  rw [hk] at heq
  exact hall _ h (by rw [hk, (List.cons.inj heq).1]; rfl)

theorem matchAt_head_other (head : Head) (h : (keyword, p) ∈ heads) (hne : keyword ≠ head.keyword)
    (hs : s.drop a = head.opening ++ v) : (Shape.indented p).matchAt s a = none := by
  have hall : ∀ x ∈ heads, ∀ k ∈ ["if", "for", "while", "switch"],
      x.1.toList.head? = k.toList.head? → x.1 = k := by decide
  obtain ⟨d, k, hd, hword⟩ := head.exists_keyword
  obtain ⟨c, k', hc, -⟩ := exists_keyword_of_heads h
  simp only [Head.opening, Head.lead, hd, List.append_assoc, List.cons_append] at hs
  have ha : a ≤ s.length := Text.place_le_of_drop hs
  apply matchAt_head_eq_none h ha
  intro b t _ heq
  rw [hs, dropWhile_margin head.margin_isMargin (indent_has_of_isWord hword), hc] at heq
  apply hne
  apply hall _ h _ head.keyword_mem
  rw [hc, hd, (List.cons.inj heq).1]
  rfl

theorem matchAt_head_line (h : (keyword, p) ∈ heads) (hu : u.all isBare = true)
    (hv : (Text.dropBlanks v).head? ≠ some '(') (hs : s.drop a = u ++ '\n' :: v) :
    (Shape.indented p).matchAt s a = none := by
  have ha : a ≤ s.length := Text.place_le_of_drop hs
  obtain ⟨c, k, hk, hc, hbreak⟩ := exists_keyword_of_heads h
  apply matchAt_head_eq_none h ha
  intro b t hb heq
  obtain ⟨u', hu', heq⟩ : ∃ u', '(' ∉ u' ∧ u' ++ '\n' :: v = keyword.toList ++ b ++ '(' :: t := by
    rw [hs, List.dropWhile_append] at heq
    split at heq
    · exact ⟨[], List.not_mem_nil, heq⟩
    · refine ⟨_, ?_, heq⟩
      intro hmem
      exact not_mem_of_isBare hu rfl ((List.dropWhile_suffix _).subset hmem)
  rcases exists_read_of_append heq.symm with ⟨r, rfl⟩ | ⟨r, hr⟩
  · rw [List.append_assoc, List.append_cancel_left_eq] at heq
    cases r with
    | nil => exact absurd (List.cons.inj heq).1 (by decide)
    | cons d r =>
      rw [List.cons_append] at heq
      exact hu' (by simp [(List.cons.inj heq).1])
  · rw [hr, List.append_assoc, List.append_cancel_left_eq, List.cons_append, List.cons.injEq] at heq
    rcases exists_read_of_append hr with ⟨r', rfl⟩ | ⟨r', hr'⟩
    · rw [List.append_assoc, List.append_cancel_left_eq] at hr
      have hblank : ∀ d ∈ r, Text.isBlank d = true := fun d hd => hb d (by simp [hr, hd])
      apply hv
      rw [heq.2, Text.dropBlanks, List.dropWhile_append_of_pos hblank]
      rfl
    · exact hbreak (by simp [hr'])

theorem isBlank_space : ∀ b ∈ [' '], Text.isBlank b = true := List.all_eq_true.mp (by decide)

theorem matchAt_braceHead {head : Head} (hkey : head.keyword = keyword)
    (hs : s.drop a = head.opening ++ '{' :: v) :
    (Shape.indented (Statement.braceHead keyword.toList)).matchAt s a =
      some ⟨a, a + head.opening.length + 1, []⟩ := by
  subst hkey
  obtain ⟨d, w, hw⟩ := List.exists_cons_of_ne_nil head.condition_ne_nil
  have hbrace : '{' ∉ w := by
    intro hmem
    exact not_mem_of_isBare head.condition_isBare (c := '{') rfl (by simp [hw, hmem])
  have hs : s.drop a = head.margin ++ (head.keyword.toList ++ ([' '] ++ '(' :: d ::
      (w ++ ')' :: ([' '] ++ '{' :: v)))) := by
    simp [hs, Head.opening, Head.lead, hw]
  rw [Statement.matchAt_braceHead (indent_of_margin head.margin_isMargin) head.exists_keyword
    isBlank_space hs (Statement.firstBlock?_of_block hbrace isBlank_space)]
  simp only [Head.opening, Head.lead, hw, List.length_append, List.length_cons, List.length_nil,
    Option.some.injEq, Match.mk.injEq, and_true, true_and]
  omega

theorem matchAt_forHead {head : Head} (hfor : head.keyword = "for")
    (hs : s.drop a = head.opening ++ '{' :: v) :
    (Shape.indented Shape.forHead).matchAt s a = some ⟨a, a + head.opening.length + 1, []⟩ := by
  obtain ⟨x, y, z, hparts, hx, hy⟩ :=
    Statement.exists_parts (Nat.le_of_eq (head.condition_parts hfor).symm)
  have hbrace : '{' ∉ z := by
    intro hmem
    exact not_mem_of_isBare head.condition_isBare (c := '{') rfl (by simp [hparts, hmem])
  have hs : s.drop a = head.margin ++ ("for".toList ++ ([' '] ++ '(' :: (x ++ ';' :: (y ++ ';' ::
      (z ++ ')' :: ([' '] ++ '{' :: v)))))) := by
    simp [hs, Head.opening, Head.lead, hparts, hfor]
  rw [Statement.matchAt_forHead (indent_of_margin head.margin_isMargin) isBlank_space hx hy hs
    (Statement.firstBlock?_of_block hbrace isBlank_space)]
  simp only [Head.opening, Head.lead, hparts, hfor, List.length_append, List.length_cons,
    List.length_nil, Option.some.injEq, Match.mk.injEq, and_true, true_and]
  omega

theorem matchAt_ifHead {head : Head} (hif : head.keyword = "if")
    (hs : s.drop a = head.opening ++ v) :
    (Shape.indented Shape.ifHead).matchAt s a = some ⟨a, a + head.lead.length + 1, []⟩ := by
  have hs : s.drop a = head.margin ++ ("if".toList ++ ([' '] ++ '(' ::
      (head.condition ++ ([')', ' '] ++ v)))) := by
    simp [hs, Head.opening, Head.lead, hif]
  rw [Statement.matchAt_ifHead (indent_of_margin head.margin_isMargin) isBlank_space hs]
  simp only [Head.lead, hif, List.append_assoc]

section Found

variable {head : Head} {body rest : Tail} {after : Text}

theorem partner_paren (hs : s.drop a = head.margin ++ head.title ++ v) :
    Bracket.paren.partner s (a + head.lead.length : Nat) =
      .ok (a + head.lead.length + head.condition.length + 1 : Nat) := by
  have hs : s.drop a = head.lead ++ ('(' :: head.condition ++ ')' :: v) := by
    simp [hs, Head.title, Head.lead]
  apply Bracket.partner_of_drop _ (Text.drop_of_drop_append hs)
  apply Bracket.Balanced.of_forall
  intro c hc
  have hbare := isBare_iff.mp (List.all_eq_true.mp head.condition_isBare c hc)
  exact ⟨hbare.1, hbare.2.1⟩

def lastPlace (a : Nat) (head : Head) (body : Tail) : Nat :=
  a + head.text.length + body.text.length - 1

theorem partner_brace (hs : s.drop a = head.text ++ body.text ++ v) :
    Bracket.brace.partner s (a + head.opening.length : Nat) = .ok (lastPlace a head body : Nat) := by
  obtain ⟨w, hw, hb⟩ := body.exists_balanced
  have hs : s.drop a = head.opening ++ ('{' :: ('\n' :: w) ++ '}' :: v) := by
    simp [hs, Head.text, hw]
  rw [Bracket.partner_of_drop (balanced_break hb) (Text.drop_of_drop_append hs), lastPlace, hw]
  simp only [Head.text, List.length_append, List.length_cons, List.length_nil]
  congr 2
  omega

theorem braced_of_matchAt (hs : s.drop a = head.text ++ body.text ++ v)
    (hm : p.matchAt s a = some ⟨a, a + head.opening.length + 1, []⟩) :
    Statement.braced p s a = .ok (some ⟨a, (lastPlace a head body : Nat)⟩) := by
  have hlast : ((a + head.opening.length + 1 : Nat) : Int) - 1 = (a + head.opening.length : Nat) := by
    omega
  rw [Statement.braced, hm]
  simp only [hlast, partner_brace hs]
  rfl

theorem next_brace (hs : s.drop a = head.opening ++ '{' :: v) :
    Token.next s (a + head.lead.length + head.condition.length + 1 + 1 : Nat) =
      .ok ⟨a + head.opening.length, ['{']⟩ := by
  have hs : s.drop a = (head.lead ++ '(' :: head.condition ++ [')']) ++ ([' '] ++ '{' :: v) := by
    simp [hs, Head.opening]
  have hplace : a + head.lead.length + head.condition.length + 1 + 1 =
      a + (head.lead ++ '(' :: head.condition ++ [')']).length := by
    simp only [List.length_append, List.length_cons, List.length_nil]
    omega
  have hrest := Text.drop_of_drop_append hs
  have hend : a + (head.lead ++ '(' :: head.condition ++ [')']).length + [' '].length =
      a + head.opening.length := by
    simp only [Head.opening, List.length_append, List.length_cons, List.length_nil]
    omega
  rw [hplace, ← hend]
  exact Token.next_mark isBlank_space (by decide) hrest

theorem rounds_else {b : Nat} (n : Nat) (hb : b + 1 ≤ s.length)
    (h : ∃ x, Token.first? (b + 1) (s.drop (b + 1)) = some x ∧ x.is "else" = false) :
    rounds (Statement.elseRound s) (n + 1) (b : Int) = .ok (b : Int) := by
  obtain ⟨x, hx, helse⟩ := h
  have hnext : Token.next s ((b : Int) + 1) = .ok x := Token.next_of_first? hb hx
  exact rounds_done (Statement.elseRound_done hnext helse) n

theorem ifStatement_head (hkey : head.keyword = "if")
    (hs : s.drop a = head.text ++ body.text ++ '\n' :: (rest.text ++ after)) :
    Statement.ifStatement s a = .ok (some ⟨a, (lastPlace a head body : Nat)⟩) := by
  have hopening : s.drop a =
      head.opening ++ '{' :: '\n' :: (body.text ++ '\n' :: (rest.text ++ after)) := by
    simp [hs, Head.text]
  have htitle : s.drop a = head.margin ++ head.title ++
      ([' '] ++ '{' :: '\n' :: (body.text ++ '\n' :: (rest.text ++ after))) := by
    rw [hopening, head.opening_eq, List.append_assoc (head.margin ++ head.title)]
  have hparen : ((a + head.lead.length + 1 : Nat) : Int) - 1 = (a + head.lead.length : Nat) := by
    omega
  have hbranch : ∀ i, Statement.branchEnd s ⟨a + head.opening.length, ['{']⟩ i =
      .ok (lastPlace a head body : Nat) := by
    intro i
    simp only [Statement.branchEnd, beq_self_eq_true, if_true, partner_brace hs]
    rfl
  have hplace : lastPlace a head body + 1 = a + (head.text ++ body.text).length := by
    obtain ⟨w, hw, -⟩ := body.exists_balanced
    simp only [lastPlace, hw, List.length_append, List.length_cons]
    omega
  have hafter : s.drop (lastPlace a head body + 1) = '\n' :: (rest.text ++ after) := by
    rw [hplace]
    exact Text.drop_of_drop_append hs
  have hround := rounds_else (s := s) (b := lastPlace a head body) (s.length + 1)
    (by have := Text.le_length_of_drop (u := []) hafter; omega) (by
      rw [hafter, Token.first?_of_lead_eq_nil (Token.lead_blank (by decide))]
      exact rest.exists_first? after _)
  have hnext : Token.next s
      (((a + head.lead.length + head.condition.length + 1 : Nat) : Int) + 1) =
        .ok ⟨a + head.opening.length, ['{']⟩ := next_brace hopening
  have hfound : (((a + head.lead.length + head.condition.length + 1 : Nat) : Int) == -1) = false :=
    beq_false_of_ne (by omega)
  rw [Statement.ifStatement, matchAt_ifHead hkey hopening]
  simp only [hparen, partner_paren htitle, bind, Except.bind, hfound, hnext, hbranch, hround]
  rfl

variable {form : Text → Int → Scan (Option Span)}
  {forms : List (String × (Text → Int → Scan (Option Span)))} {x : Span}

theorem first?_eq_none (h : ∀ k f, (k, f) ∈ forms → f s i = .ok none) :
    first? s i forms = .ok none := by
  induction forms with
  | nil => rfl
  | cons y forms ih =>
    rw [first?, h y.1 y.2 List.mem_cons_self]
    exact ih fun k f hmem => h k f (List.mem_cons_of_mem _ hmem)

theorem first?_eq_some (hlook : forms.lookup keyword = some form)
    (hfound : form s i = .ok (some x))
    (hother : ∀ k f, (k, f) ∈ forms → k ≠ keyword → f s i = .ok none) :
    first? s i forms = .ok (some (keyword, x)) := by
  induction forms with
  | nil => cases hlook
  | cons y forms ih =>
    rw [List.lookup_cons] at hlook
    cases hy : keyword == y.1 with
    | true =>
      obtain rfl := eq_of_beq hy
      obtain rfl : y.2 = form := by simpa using hlook
      rw [first?, hfound]
      rfl
    | false =>
      rw [first?, hother y.1 y.2 List.mem_cons_self (ne_of_beq_false hy).symm]
      apply ih (by simpa [hy] using hlook)
      intro k f hmem
      exact hother k f (List.mem_cons_of_mem _ hmem)

theorem measured_of_none (h : (keyword, form) ∈ measured)
    (hno : ∀ p, (keyword, p) ∈ heads → (Shape.indented p).matchAt s i = none) :
    form s i = .ok none := by
  simp only [measured, List.mem_cons, Prod.mk.injEq, List.not_mem_nil, or_false] at h
  rcases h with ⟨rfl, rfl⟩ | ⟨rfl, rfl⟩ | ⟨rfl, rfl⟩ | ⟨rfl, rfl⟩
  · rw [Statement.ifStatement, hno Shape.ifHead (by simp [heads])]
    rfl
  · rw [Statement.forStatement, Statement.braced_of_none (hno Shape.forHead (by simp [heads]))]
    rfl
  · exact Statement.braced_of_none (hno Shape.whileHead (by simp [heads]))
  · exact Statement.braced_of_none (hno Shape.switchHead (by simp [heads]))

theorem first?_bare (hu : u.all isBare = true) (hv : (Text.dropBlanks v).head? ≠ some '(')
    (hs : s.drop a = u ++ '\n' :: v) : first? s a measured = .ok none := by
  apply first?_eq_none
  intro k f hmem
  apply measured_of_none hmem
  intro p hp
  exact matchAt_head_line hp hu hv hs

theorem first?_brace {d : Char} (hd : d ∈ ['{', '}']) (hu : u.all isMargin = true)
    (hs : s.drop a = u ++ d :: v) : first? s a measured = .ok none := by
  apply first?_eq_none
  intro k f hmem
  apply measured_of_none hmem
  intro p hp
  exact matchAt_head_brace hp hd hu hs

theorem first?_head (hs : s.drop a = head.text ++ body.text ++ '\n' :: (rest.text ++ after)) :
    first? s a measured = .ok (some (head.keyword, ⟨a, (lastPlace a head body : Nat)⟩)) := by
  have hopening : s.drop a =
      head.opening ++ '{' :: '\n' :: (body.text ++ '\n' :: (rest.text ++ after)) := by
    simp [hs, Head.text]
  have hother : ∀ k f, (k, f) ∈ measured → k ≠ head.keyword → f s a = .ok none := by
    intro k f hmem hne
    apply measured_of_none hmem
    intro p hp
    exact matchAt_head_other head hp hne hopening
  have hmem := head.keyword_mem
  simp only [List.mem_cons, List.not_mem_nil, or_false] at hmem
  rcases hmem with hkey | hkey | hkey | hkey <;> rw [hkey] at hother ⊢
  · exact first?_eq_some rfl (ifStatement_head hkey hs) hother
  · have hfound : Statement.forStatement s a = .ok (some ⟨a, (lastPlace a head body : Nat)⟩) := by
      rw [Statement.forStatement, braced_of_matchAt hs (matchAt_forHead hkey hopening)]
      rfl
    exact first?_eq_some rfl hfound hother
  · exact first?_eq_some rfl (braced_of_matchAt hs (matchAt_braceHead hkey hopening)) hother
  · exact first?_eq_some rfl (braced_of_matchAt hs (matchAt_braceHead hkey hopening)) hother

end Found

end Nesting

end CodeAudit

import CodeAudit.Nesting
import CodeAudit.Proofs.Bracket.Balanced
import CodeAudit.Proofs.Token

namespace CodeAudit.Nesting

def isBare (c : Char) : Bool := !(['(', ')', '{', '}', '\n'].contains c)

def isMargin (c : Char) : Bool := c == ' ' || c == '\t'

structure Head where
  margin : Text
  keyword : String
  condition : Text
  margin_isMargin : margin.all isMargin = true
  keyword_mem : keyword ∈ ["if", "for", "while", "switch"]
  condition_ne_nil : condition ≠ []
  condition_isBare : condition.all isBare = true
  condition_parts : keyword = "for" → condition.count ';' = 2

structure PlainLine where
  text : Text
  isBare : text.all isBare = true
  no_else : "else".toList ∉ text.splitOnP (!Text.isWord ·)

structure Foot where
  margin : Text
  margin_isMargin : margin.all isMargin = true
  margin_ne_nil : margin ≠ []

/-- What follows the head of a control statement: its lines and the statements in it, each with all
that follows, down to its closing brace. -/
inductive Tail where
  | close (foot : Foot)
  | line (l : PlainLine) (rest : Tail)
  | nested (head : Head) (body rest : Tail)

namespace Head

def title (h : Head) : Text := h.keyword.toList ++ ' ' :: '(' :: h.condition ++ [')']

def lead (h : Head) : Text := h.margin ++ h.keyword.toList ++ [' ']

def opening (h : Head) : Text := h.lead ++ '(' :: h.condition ++ [')', ' ']

def text (h : Head) : Text := h.opening ++ ['{', '\n']

def reports (h : Head) (before : Text) (lines : Nat) : List Report :=
  if 10 < lines then
    [⟨(before.count '\n' + 1 : Nat), .longStatement h.keyword, some h.title, none⟩]
  else []

end Head

namespace Tail

def text : Tail → Text
  | close foot => foot.margin ++ ['}']
  | line l rest => l.text ++ '\n' :: rest.text
  | nested head body rest => head.text ++ body.text ++ '\n' :: rest.text

def children : Tail → Nat
  | close _ => 0
  | line _ rest | nested _ _ rest => rest.children + 1

def reports (before : Text) : Tail → List Report
  | close _ => []
  | line l rest => rest.reports (before ++ l.text ++ ['\n'])
  | nested head body rest =>
    body.reports (before ++ head.text) ++ head.reports before (body.children + 1) ++
      rest.reports (before ++ head.text ++ body.text ++ ['\n'])

end Tail

variable {c : Char} {u v : Text}

theorem isBare_iff : isBare c = true ↔ c ≠ '(' ∧ c ≠ ')' ∧ c ≠ '{' ∧ c ≠ '}' ∧ c ≠ '\n' := by
  simp [isBare, List.contains_eq_mem]

theorem not_mem_of_isBare (hu : u.all isBare = true) (hc : isBare c = false) : c ∉ u := by
  intro hmem
  rw [List.all_eq_true.mp hu c hmem] at hc
  cases hc

theorem balanced_of_not_mem (ho : '{' ∉ u) (hc : '}' ∉ u) : Bracket.brace.Balanced u :=
  Bracket.Balanced.of_forall fun _ hd =>
    ⟨ne_of_mem_of_not_mem hd ho, ne_of_mem_of_not_mem hd hc⟩

theorem balanced_of_isBare (hu : u.all isBare = true) : Bracket.brace.Balanced u :=
  balanced_of_not_mem (not_mem_of_isBare hu rfl) (not_mem_of_isBare hu rfl)

theorem balanced_break (hu : Bracket.brace.Balanced u) : Bracket.brace.Balanced ('\n' :: u) :=
  (balanced_of_not_mem (u := ['\n']) (by decide) (by decide)).append hu

theorem isBare_of_isMargin (h : isMargin c = true) : isBare c = true := by
  simp only [isMargin, Bool.or_eq_true, beq_iff_eq] at h
  rcases h with rfl | rfl <;> decide

theorem isBlank_of_isMargin (h : isMargin c = true) : Text.isBlank c = true := by
  simp only [isMargin, Bool.or_eq_true, beq_iff_eq] at h
  rcases h with rfl | rfl <;> decide

theorem all_isBare_of_isMargin (hu : u.all isMargin = true) : u.all isBare = true :=
  List.all_eq_true.mpr fun d hd => isBare_of_isMargin (List.all_eq_true.mp hu d hd)

theorem isBlank_of_margin (hu : u.all isMargin = true) : ∀ d ∈ u, Text.isBlank d = true :=
  fun d hd => isBlank_of_isMargin (List.all_eq_true.mp hu d hd)

theorem dropBlanks_margin (hu : u.all isMargin = true) : Text.dropBlanks (u ++ v) = v.dropBlanks :=
  List.dropWhile_append_of_pos (isBlank_of_margin hu)

theorem exists_first?_line {pos : Nat} (hu : "else".toList ∉ u.splitOnP (!Text.isWord ·))
    (hv : ∃ x, Token.first? (pos + u.length + 1) v = some x ∧ x.is "else" = false) :
    ∃ x, Token.first? pos (u ++ '\n' :: v) = some x ∧ x.is "else" = false := by
  have hbreak : ∀ b ∈ ('\n' :: v).head?, Text.isWord b = false := by
    intro b hb
    obtain rfl : '\n' = b := Option.some.inj hb
    decide
  induction u generalizing pos with
  | nil =>
    rw [List.nil_append, Token.first?_of_lead_eq_nil (Token.lead_blank (by decide))]
    exact hv
  | cons c u ih =>
    by_cases hlead : Token.lead (c :: u ++ '\n' :: v) = []
    · have hc : Text.isWord c = false := by
        cases hc : Text.isWord c with
        | false => rfl
        | true => rw [Token.lead_word hc hbreak, List.takeWhile_cons_of_pos hc] at hlead; cases hlead
      rw [List.splitOnP_cons_eq_if_modifyHead, hc, Bool.not_false, if_pos rfl, List.mem_cons,
        not_or] at hu
      rw [List.cons_append] at hlead ⊢
      rw [Token.first?_of_lead_eq_nil hlead]
      apply ih hu.2
      rwa [List.length_cons, Nat.add_right_comm pos, ← Nat.add_assoc] at hv
    · refine ⟨_, Token.first?_of_lead_ne_nil hlead, ?_⟩
      apply beq_false_of_ne
      rintro heq
      change Token.lead (c :: u ++ '\n' :: v) = "else".toList at heq
      rcases Token.lead_mem_or (c := c) (w := u) hbreak with hmem | hmark
      · exact hu (heq ▸ hmem)
      · have hno := hmark 'e' (by rw [heq]; decide)
        revert hno
        decide

namespace Head

variable (h : Head)

theorem keyword_isBare : h.keyword.toList.all isBare = true := by
  have hall : ∀ k ∈ ["if", "for", "while", "switch"], k.toList.all isBare = true := by decide
  exact hall h.keyword h.keyword_mem

theorem keyword_isWord : h.keyword.toList.all Text.isWord = true := by
  have hall : ∀ k ∈ ["if", "for", "while", "switch"], k.toList.all Text.isWord = true := by decide
  exact hall h.keyword h.keyword_mem

theorem keyword_ne_else : (h.keyword.toList == "else".toList) = false := by
  have hall : ∀ k ∈ ["if", "for", "while", "switch"], (k.toList == "else".toList) = false := by decide
  exact hall h.keyword h.keyword_mem

theorem exists_keyword : ∃ c w, h.keyword.toList = c :: w ∧ Text.isWord c = true := by
  have hmem := h.keyword_mem
  simp only [List.mem_cons, List.not_mem_nil, or_false] at hmem
  rcases hmem with hk | hk | hk | hk <;> rw [hk]
  · exact ⟨'i', ['f'], rfl, by decide⟩
  · exact ⟨'f', ['o', 'r'], rfl, by decide⟩
  · exact ⟨'w', "hile".toList, rfl, by decide⟩
  · exact ⟨'s', "witch".toList, rfl, by decide⟩

theorem opening_eq : h.opening = h.margin ++ h.title ++ [' '] := by
  simp [opening, lead, title]

theorem opening_balanced : Bracket.brace.Balanced h.opening := by
  have hmargin := all_isBare_of_isMargin h.margin_isMargin
  have hno : ∀ c ∈ ['{', '}'], c ∉ h.opening := by
    intro c hc
    have hbare : isBare c = false ∧ c ∉ [' ', '(', ')'] := by
      simp only [List.mem_cons, List.not_mem_nil, or_false] at hc
      rcases hc with rfl | rfl <;> decide
    have hout := hbare.2
    simp only [List.mem_cons, List.not_mem_nil, or_false, not_or] at hout
    simp [opening, lead, hout, not_mem_of_isBare hmargin hbare.1,
      not_mem_of_isBare h.keyword_isBare hbare.1, not_mem_of_isBare h.condition_isBare hbare.1]
  exact balanced_of_not_mem (hno _ (by simp)) (hno _ (by simp))

end Head

namespace Tail

theorem exists_balanced (t : Tail) : ∃ w, t.text = w ++ ['}'] ∧ Bracket.brace.Balanced w := by
  induction t with
  | close foot =>
    exact ⟨_, rfl, balanced_of_isBare (all_isBare_of_isMargin foot.margin_isMargin)⟩
  | line l rest ih =>
    obtain ⟨w, hw, hb⟩ := ih
    exact ⟨l.text ++ '\n' :: w, by simp [text, hw],
      (balanced_of_isBare l.isBare).append (balanced_break hb)⟩
  | nested h body rest ihb ihr =>
    obtain ⟨w, hw, hb⟩ := ihb
    obtain ⟨w', hw', hb'⟩ := ihr
    refine ⟨h.opening ++ (('{' :: ('\n' :: w) ++ ['}']) ++ '\n' :: w'), ?_, ?_⟩
    · simp [text, Head.text, hw, hw']
    · exact h.opening_balanced.append
        ((Bracket.Balanced.wrap (balanced_break hb)).append (balanced_break hb'))

theorem text_length_pos (t : Tail) : 0 < t.text.length := by
  obtain ⟨w, hw, -⟩ := t.exists_balanced
  simp [hw]

theorem head?_dropBlanks (t : Tail) (after : Text) :
    (Text.dropBlanks (t.text ++ after)).head? ≠ some '(' := by
  induction t with
  | close foot =>
    rw [text, List.append_assoc, dropBlanks_margin foot.margin_isMargin]
    simp [Text.dropBlanks, show Text.isBlank '}' = false by decide]
  | line l rest ih =>
    rw [text, List.append_assoc, Text.dropBlanks, List.dropWhile_append]
    split
    · exact ih
    · rename_i hink
      obtain ⟨d, w, hd⟩ := List.exists_cons_of_ne_nil (mt List.isEmpty_iff.mpr hink)
      have hmem : d ∈ l.text := (List.dropWhile_suffix _).subset (hd ▸ List.mem_cons_self)
      have hbare := (isBare_iff.mp (List.all_eq_true.mp l.isBare d hmem)).1
      simpa [hd] using hbare
  | nested h body rest ihb ihr =>
    obtain ⟨d, w, hd, hword⟩ := h.exists_keyword
    have hparen : d ≠ '(' := by
      rintro rfl
      exact absurd hword (by decide)
    simp only [text, Head.text, Head.opening, Head.lead, hd, List.append_assoc, List.cons_append]
    rw [dropBlanks_margin h.margin_isMargin, Text.dropBlanks,
      List.dropWhile_cons_of_neg (by simp [Text.not_isBlank_of_isWord hword])]
    simpa using hparen

theorem exists_first? (t : Tail) (after : Text) (pos : Nat) :
    ∃ x, Token.first? pos (t.text ++ after) = some x ∧ x.is "else" = false := by
  induction t generalizing pos with
  | close foot =>
    rw [text, List.append_assoc, Token.first?_append_blanks (isBlank_of_margin foot.margin_isMargin)]
    exact ⟨_, Token.first?_mark rfl, rfl⟩
  | line l rest ih =>
    rw [text, List.append_assoc]
    exact exists_first?_line l.no_else (ih _)
  | nested h body rest ihb ihr =>
    obtain ⟨d, w, hd, -⟩ := h.exists_keyword
    have hword := List.all_eq_true.mp h.keyword_isWord
    have hlead : ∀ v, Token.lead (d :: w ++ ' ' :: v) = h.keyword.toList := by
      intro v
      have hself : (h.keyword.toList ++ []).takeWhile Text.isWord = h.keyword.toList ++ [] :=
        List.takeWhile_append_of_pos hword
      rw [Token.lead_word (hword d (by simp [hd])) (by simp; decide), ← hd]
      simpa using hself
    simp only [text, Head.text, Head.opening, Head.lead, List.append_assoc]
    rw [Token.first?_append_blanks (isBlank_of_margin h.margin_isMargin), hd]
    refine ⟨_, Token.first?_of_lead_ne_nil (w := w ++ ' ' :: _) ?_, ?_⟩
    · rw [← List.cons_append, hlead, hd]
      simp
    · rw [← List.cons_append, hlead]
      exact h.keyword_ne_else

end Tail

end CodeAudit.Nesting

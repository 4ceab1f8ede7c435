import CodeAudit.Proofs.Token

/-!
A text and its tokens. Longest words, double colons and marks, with gaps between them, make up the
whole text in one way only, and this is how it is read, from its beginning or from the end of any
token.
-/

namespace CodeAudit

namespace Token

variable {s u v w before after last : Text} {c : Char} {a pos : Nat} {t : Token}

structure IsGap (w : Text) : Prop where
  no_word : ∀ c ∈ w, Text.isWord c = false
  no_mark : ∀ c ∈ w, isMark c = false
  no_colons : ¬[':', ':'] <:+: w

/-- A token between the texts `before` and `after`. A word is as long as it can be. -/
inductive IsLexeme (before : Text) : (w after : Text) → Prop
  | word {w after : Text} (hne : w ≠ []) (hw : ∀ c ∈ w, Text.isWord c = true)
      (hbefore : ∀ c ∈ before.getLast?, Text.isWord c = false)
      (hafter : ∀ c ∈ after.head?, Text.isWord c = false) : IsLexeme before w after
  | colons {after : Text} : IsLexeme before [':', ':'] after
  | mark {c : Char} {after : Text} (hc : isMark c = true) : IsLexeme before [c] after

structure Segment where
  gap : Text
  token : Text

namespace Segment

def text (x : Segment) : Text := x.gap ++ x.token

def joined (xs : List Segment) : Text := xs.flatMap text

theorem joined_cons (x : Segment) (xs : List Segment) : joined (x :: xs) = x.text ++ joined xs :=
  List.flatMap_cons

def tokens : (pos : Nat) → List Segment → List Token
  | _, [] => []
  | pos, x :: xs => ⟨pos + x.gap.length, x.token⟩ :: tokens (pos + x.text.length) xs

end Segment

structure Decomposes (w : Text) (xs : List Segment) (last : Text) : Prop where
  text_eq : w = Segment.joined xs ++ last
  isLexeme : ∀ us x vs, xs = us ++ x :: vs →
    IsLexeme (Segment.joined us ++ x.gap) x.token (Segment.joined vs ++ last)
  isGap : ∀ x ∈ xs, IsGap x.gap
  last_isGap : IsGap last
  colons : ∀ x ∈ xs, x.gap.getLast? = some ':' → x.token ≠ [':', ':']

theorem lead_eq_nil_iff : lead (c :: w) = [] ↔
    Text.isWord c = false ∧ isMark c = false ∧ ¬[':', ':'] <+: c :: w := by
  rw [lead]
  by_cases hword : Text.isWord c = true
  · simp [hword, List.takeWhile_cons_of_pos hword]
  · by_cases hmark : isMark c = true
    · simp [hword, hmark]
    · by_cases hcolons : [':', ':'] <+: c :: w
      · rw [if_neg hword, if_neg hmark, if_pos (List.isPrefixOf_iff_prefix.mpr hcolons)]
        simp [hcolons]
      · rw [if_neg hword, if_neg hmark, if_neg (mt List.isPrefixOf_iff_prefix.mp hcolons)]
        simp [hword, hmark, hcolons]

theorem IsGap.nil : IsGap [] := by
  refine ⟨by simp, by simp, ?_⟩
  rw [List.infix_nil]
  exact List.cons_ne_nil _ _

theorem isGap_cons_iff : IsGap (c :: w) ↔
    Text.isWord c = false ∧ isMark c = false ∧ ¬[':', ':'] <+: c :: w ∧ IsGap w := by
  constructor
  · rintro ⟨hword, hmark, hcolons⟩
    rw [List.infix_cons_iff, not_or] at hcolons
    rw [List.forall_mem_cons] at hword hmark
    exact ⟨hword.1, hmark.1, hcolons.1, hword.2, hmark.2, hcolons.2⟩
  · rintro ⟨hword, hmark, hcolons, h⟩
    refine ⟨List.forall_mem_cons.mpr ⟨hword, h.no_word⟩, List.forall_mem_cons.mpr ⟨hmark, h.no_mark⟩,
      ?_⟩
    rw [List.infix_cons_iff, not_or]
    exact ⟨hcolons, h.no_colons⟩

theorem IsLexeme.ne_nil (h : IsLexeme before w after) : w ≠ [] := by
  cases h with
  | word hne => exact hne
  | colons => exact List.cons_ne_nil _ _
  | mark hc => exact List.cons_ne_nil _ _

theorem IsLexeme.of_before {before' : Text} (h : IsLexeme before w after)
    (hbefore' : (∀ c ∈ w, Text.isWord c = true) → (∀ c ∈ before.getLast?, Text.isWord c = false) →
      ∀ c ∈ before'.getLast?, Text.isWord c = false) : IsLexeme before' w after := by
  cases h with
  | word hne hw hbefore hafter => exact .word hne hw (hbefore' hw hbefore) hafter
  | colons => exact .colons
  | mark hc => exact .mark hc

theorem IsLexeme.not_isWord_of_getLast? (h : IsLexeme before w after)
    (hafter : ∃ d ∈ after.head?, Text.isWord d = true) :
    ∀ d ∈ w.getLast?, Text.isWord d = false := by
  intro d hd
  cases h with
  | word hne hw hbefore hno =>
    obtain ⟨e, he, hword⟩ := hafter
    rw [hno e he] at hword
    cases hword
  | colons =>
    obtain rfl : ':' = d := Option.some.inj hd
    decide
  | mark hc =>
    rw [← Option.some.inj hd]
    exact not_isWord_of_isMark hc

theorem IsLexeme.of_colon_head (h : IsLexeme before (':' :: w) after) : w = [':'] := by
  cases h with
  | word hne hw => exact absurd (hw ':' List.mem_cons_self) (by decide)
  | colons => rfl
  | mark hc => exact absurd hc (by decide)

theorem first?_of_isLexeme (h : IsLexeme before w after) (pos : Nat) :
    first? pos (w ++ after) = some ⟨pos, w⟩ := by
  cases h with
  | word hne hw hbefore hafter => exact first?_word hw hne hafter
  | colons => exact first?_of_lead_ne_nil (c := ':') (w := ':' :: after) (List.cons_ne_nil _ _)
  | mark hc => exact first?_mark hc

theorem first?_of_isGap (hu : IsGap u) (hw : IsLexeme before w after)
    (hcolons : u.getLast? = some ':' → w ≠ [':', ':']) (pos : Nat) :
    first? pos (u ++ (w ++ after)) = some ⟨pos + u.length, w⟩ := by
  induction u generalizing pos with
  | nil => exact first?_of_isLexeme hw pos
  | cons c u ih =>
    obtain ⟨hword, hmark, hpre, hu⟩ := isGap_cons_iff.mp hu
    have hlead : lead (c :: (u ++ (w ++ after))) = [] := by
      refine lead_eq_nil_iff.mpr ⟨hword, hmark, ?_⟩
      intro h
      obtain ⟨rfl, hnext⟩ := List.cons_prefix_cons.mp h
      cases u with
      | nil =>
        obtain ⟨d, w, rfl⟩ := List.exists_cons_of_ne_nil hw.ne_nil
        obtain ⟨rfl, -⟩ := List.cons_prefix_cons.mp hnext
        exact hcolons rfl (by rw [hw.of_colon_head])
      | cons d u =>
        obtain ⟨rfl, -⟩ := List.cons_prefix_cons.mp hnext
        exact hpre ⟨u, rfl⟩
    have hlast : u.getLast? = some ':' → w ≠ [':', ':'] := by
      intro hlast
      apply hcolons
      rw [List.getLast?_cons, hlast]
      rfl
    rw [List.cons_append, first?_of_lead_eq_nil hlead, ih hu hlast, List.length_cons]
    congr 2
    omega

theorem first?_eq_none_iff : first? pos w = none ↔ IsGap w := by
  induction w generalizing pos with
  | nil => exact ⟨fun _ => .nil, fun _ => rfl⟩
  | cons c w ih =>
    by_cases hlead : lead (c :: w) = []
    · obtain ⟨hword, hmark, hcolons⟩ := lead_eq_nil_iff.mp hlead
      rw [first?_of_lead_eq_nil hlead, ih, isGap_cons_iff]
      simp [hword, hmark, hcolons]
    · rw [first?_of_lead_ne_nil hlead, isGap_cons_iff]
      constructor
      · intro h
        cases h
      · rintro ⟨hword, hmark, hcolons, -⟩
        exact absurd (lead_eq_nil_iff.mpr ⟨hword, hmark, hcolons⟩) hlead

theorem exists_isLexeme_lead (h : lead (c :: w) ≠ []) :
    ∃ v, c :: w = lead (c :: w) ++ v ∧ IsLexeme [] (lead (c :: w)) v := by
  by_cases hword : Text.isWord c = true
  · have hlead : lead (c :: w) = (c :: w).takeWhile Text.isWord := by rw [lead, if_pos hword]
    rw [hlead] at h ⊢
    refine ⟨(c :: w).dropWhile Text.isWord, List.takeWhile_append_dropWhile.symm, .word h ?_ ?_ ?_⟩
    · exact List.all_eq_true.mp List.all_takeWhile
    · simp
    · intro d hd
      have hstop := List.head?_dropWhile_not Text.isWord (c :: w)
      rw [Option.mem_def.mp hd] at hstop
      simpa using hstop
  · by_cases hmark : isMark c = true
    · rw [lead_mark hmark]
      exact ⟨w, rfl, .mark hmark⟩
    · have hcolons : [':', ':'] <+: c :: w := by
        apply Classical.byContradiction
        intro hcolons
        apply h
        exact lead_eq_nil_iff.mpr
          ⟨Bool.eq_false_iff.mpr hword, Bool.eq_false_iff.mpr hmark, hcolons⟩
      obtain ⟨v, hv⟩ := hcolons
      rw [← hv]
      exact ⟨v, rfl, .colons⟩

theorem exists_split_of_first? (h : first? pos w = some t) :
    ∃ u v, w = u ++ (t.text ++ v) ∧ t.start = pos + u.length ∧ IsGap u ∧ IsLexeme u t.text v ∧
      (u.getLast? = some ':' → t.text ≠ [':', ':']) := by
  induction w generalizing pos with
  | nil => cases h
  | cons c w ih =>
    by_cases hlead : lead (c :: w) = []
    · rw [first?_of_lead_eq_nil hlead] at h
      obtain ⟨u, v, rfl, hstart, hu, hw, hcolons⟩ := ih h
      obtain ⟨hword, hmark, hpre⟩ := lead_eq_nil_iff.mp hlead
      have hgap : IsGap (c :: u) := by
        refine isGap_cons_iff.mpr ⟨hword, hmark, ?_, hu⟩
        exact fun h => hpre (h.trans (List.prefix_append (c :: u) _))
      refine ⟨c :: u, v, rfl, ?_, hgap, hw.of_before ?_, ?_⟩
      · rw [hstart, List.length_cons]
        omega
      · exact fun _ _ d hd => hgap.no_word d (List.mem_of_getLast? hd)
      · intro hlast
        cases u with
        | nil =>
          obtain rfl : c = ':' := Option.some.inj hlast
          intro htext
          rw [htext] at hpre
          exact hpre ⟨':' :: v, rfl⟩
        | cons d u => exact hcolons (by rwa [List.getLast?_cons_cons] at hlast)
    · rw [first?_of_lead_ne_nil hlead] at h
      obtain rfl := Option.some.inj h
      obtain ⟨v, hv, hw⟩ := exists_isLexeme_lead hlead
      exact ⟨[], v, hv, rfl, .nil, hw, by simp⟩

namespace Decomposes

variable {x : Segment} {xs ys : List Segment} {last' : Text}

theorem nil (h : IsGap w) : Decomposes w [] w := by
  refine ⟨rfl, ?_, by simp, h, by simp⟩
  intro us x vs hxs
  simp at hxs

theorem isLexeme_cons {us vs : List Segment} {y : Segment} (hlexeme : IsLexeme x.gap x.token w)
    (h : Decomposes w (us ++ y :: vs) last) :
    IsLexeme (Segment.joined (x :: us) ++ y.gap) y.token (Segment.joined vs ++ last) := by
  have hy := h.isLexeme us y vs rfl
  refine hy.of_before ?_
  intro hword hbefore d hd
  rw [Segment.joined_cons, List.append_assoc, List.getLast?_append] at hd
  cases hlast : (Segment.joined us ++ y.gap).getLast? with
  | some e =>
    rw [hlast] at hd
    exact Option.some.inj hd ▸ hbefore e hlast
  | none =>
    obtain ⟨hus, hy'⟩ := List.append_eq_nil_iff.mp (List.getLast?_eq_none_iff.mp hlast)
    obtain ⟨e, v, he⟩ := List.exists_cons_of_ne_nil hy.ne_nil
    have hw : ∃ d ∈ w.head?, Text.isWord d = true := by
      refine ⟨e, ?_, hword e (by simp [he])⟩
      have hstart : Segment.joined (us ++ y :: vs) = y.token ++ Segment.joined vs := by
        rw [Segment.joined, List.flatMap_append, ← Segment.joined, hus, ← Segment.joined,
          Segment.joined_cons, Segment.text, hy']
        rfl
      rw [h.text_eq, hstart, he]
      rfl
    apply hlexeme.not_isWord_of_getLast? hw
    rw [hlast, Option.none_or, Segment.text, List.getLast?_append,
      List.getLast?_eq_some_getLast hlexeme.ne_nil] at hd
    rw [List.getLast?_eq_some_getLast hlexeme.ne_nil]
    exact hd

theorem cons (hgap : IsGap x.gap) (hlexeme : IsLexeme x.gap x.token w)
    (hcolons : x.gap.getLast? = some ':' → x.token ≠ [':', ':']) (h : Decomposes w xs last) :
    Decomposes (x.text ++ w) (x :: xs) last := by
  refine ⟨?_, ?_, List.forall_mem_cons.mpr ⟨hgap, h.isGap⟩, h.last_isGap,
    List.forall_mem_cons.mpr ⟨hcolons, h.colons⟩⟩
  · rw [Segment.joined_cons, List.append_assoc, ← h.text_eq]
  · intro us y vs hxs
    cases us with
    | nil =>
      obtain ⟨rfl, rfl⟩ := List.cons.inj hxs
      rw [← h.text_eq]
      exact hlexeme
    | cons z us =>
      rw [List.cons_append] at hxs
      obtain ⟨rfl, rfl⟩ := List.cons.inj hxs
      exact isLexeme_cons hlexeme h

theorem tail (h : Decomposes w (x :: xs) last) : Decomposes (Segment.joined xs ++ last) xs last := by
  refine ⟨rfl, ?_, (List.forall_mem_cons.mp h.isGap).2, h.last_isGap,
    (List.forall_mem_cons.mp h.colons).2⟩
  intro us y vs hxs
  have hy := h.isLexeme (x :: us) y vs (by rw [hxs]; rfl)
  refine hy.of_before ?_
  intro _ hbefore d hd
  apply hbefore
  rw [Segment.joined_cons, List.append_assoc, List.getLast?_append, Option.mem_def.mp hd]
  rfl

theorem eq_text_append (h : Decomposes w (x :: xs) last) :
    w = x.gap ++ (x.token ++ (Segment.joined xs ++ last)) := by
  rw [h.text_eq, Segment.joined_cons, Segment.text, List.append_assoc, List.append_assoc]

theorem first?_nil (h : Decomposes w [] last) (pos : Nat) : first? pos w = none := by
  rw [h.text_eq]
  exact first?_eq_none_iff.mpr h.last_isGap

theorem first?_cons (h : Decomposes w (x :: xs) last) (pos : Nat) :
    first? pos w = some ⟨pos + x.gap.length, x.token⟩ := by
  rw [h.eq_text_append]
  exact first?_of_isGap (h.isGap x List.mem_cons_self) (h.isLexeme [] x xs rfl)
    (h.colons x List.mem_cons_self) pos

theorem unique (h : Decomposes w xs last) (h' : Decomposes w ys last') : ys = xs ∧ last' = last := by
  -- the first token of a text is told by the scan, so that there is no other decomposition
  induction xs generalizing w ys with
  | nil =>
    cases ys with
    | nil => exact ⟨rfl, h'.text_eq.symm.trans h.text_eq⟩
    | cons y ys => cases (h.first?_nil 0).symm.trans (h'.first?_cons 0)
  | cons x xs ih =>
    cases ys with
    | nil => cases (h'.first?_nil 0).symm.trans (h.first?_cons 0)
    | cons y ys =>
      have hfirst := Option.some.inj ((h.first?_cons 0).symm.trans (h'.first?_cons 0))
      obtain ⟨hgap, htoken⟩ := Token.mk.inj hfirst
      have hw := h.eq_text_append.symm.trans h'.eq_text_append
      obtain ⟨hgap, hw⟩ := List.append_inj hw (by omega)
      rw [htoken, List.append_cancel_left_eq] at hw
      obtain ⟨rfl, rfl⟩ := ih h.tail (hw ▸ h'.tail)
      exact ⟨congrArg (· :: _) (by cases x; cases y; simp_all), rfl⟩

end Decomposes

theorem exists_decomposes (w : Text) : ∃ xs last, Decomposes w xs last := by
  induction hn : w.length using Nat.strongRecOn generalizing w with
  | ind n ih =>
    cases hfirst : first? 0 w with
    | none => exact ⟨[], w, .nil (first?_eq_none_iff.mp hfirst)⟩
    | some t =>
      obtain ⟨u, v, rfl, -, hu, hw, hcolons⟩ := exists_split_of_first? hfirst
      have hlt : v.length < n := by
        have hpos := List.length_pos_iff.mpr hw.ne_nil
        rw [← hn, List.length_append, List.length_append]
        omega
      obtain ⟨xs, last, h⟩ := ih v.length hlt v rfl
      refine ⟨⟨u, t.text⟩ :: xs, last, ?_⟩
      rw [← List.append_assoc]
      exact Decomposes.cons (x := ⟨u, t.text⟩) hu hw hcolons h

end Token

end CodeAudit

import CodeAudit.Proofs.Token.Decomposition

namespace CodeAudit

namespace Token

variable {s w last : Text} {a pos : Nat} {t : Token} {xs : List Segment}

theorem Segment.length_tokens (pos : Nat) (xs : List Segment) :
    (tokens pos xs).length = xs.length := by
  induction xs generalizing pos with
  | nil => rfl
  | cons x xs ih => rw [tokens, List.length_cons, ih, List.length_cons]

theorem allFrom_skip (pos k : Nat) (w : Text) : allFrom pos k w = allFrom (pos + k) 0 (w.drop k) := by
  induction k generalizing pos w with
  | zero => rfl
  | succ k ih =>
    cases w with
    | nil => rfl
    | cons c w =>
      rw [allFrom, ih, List.drop_succ_cons]
      congr 1
      omega

theorem allFrom_of_lead_eq_nil {c : Char} (h : lead (c :: w) = []) :
    allFrom pos 0 (c :: w) = allFrom (pos + 1) 0 w := by
  rw [allFrom, h]
  rfl

theorem allFrom_of_lead_ne_nil {c : Char} (h : lead (c :: w) ≠ []) :
    allFrom pos 0 (c :: w) = ⟨pos, lead (c :: w)⟩ ::
      allFrom (pos + (lead (c :: w)).length) 0 ((c :: w).drop (lead (c :: w)).length) := by
  obtain ⟨n, hn⟩ := Nat.exists_eq_succ_of_ne_zero (mt List.length_eq_zero_iff.mp h)
  have hplace : pos + 1 + n = pos + (n + 1) := by omega
  rw [allFrom]
  simp only [mt List.isEmpty_iff.mp h, Bool.false_eq_true, if_false, hn, Nat.succ_eq_add_one,
    Nat.add_sub_cancel, List.drop_succ_cons]
  rw [allFrom_skip, hplace]

theorem allFrom_of_first?_eq_none (h : first? pos w = none) : allFrom pos 0 w = [] := by
  induction w generalizing pos with
  | nil => rfl
  | cons c w ih =>
    by_cases hlead : lead (c :: w) = []
    · rw [first?_of_lead_eq_nil hlead] at h
      rw [allFrom_of_lead_eq_nil hlead, ih h]
    · rw [first?_of_lead_ne_nil hlead] at h
      cases h

theorem allFrom_of_first? (h : first? pos w = some t) :
    allFrom pos 0 w = t :: allFrom t.stop 0 (w.drop (t.stop - pos)) := by
  induction w generalizing pos with
  | nil => cases h
  | cons c w ih =>
    by_cases hlead : lead (c :: w) = []
    · rw [first?_of_lead_eq_nil hlead] at h
      obtain ⟨u, v, -, hstart, -⟩ := exists_split_of_first? h
      have hstop : t.stop - pos = t.stop - (pos + 1) + 1 := by
        rw [stop]
        omega
      rw [allFrom_of_lead_eq_nil hlead, ih h, hstop, List.drop_succ_cons]
    · rw [first?_of_lead_ne_nil hlead] at h
      obtain rfl := Option.some.inj h
      rw [allFrom_of_lead_ne_nil hlead, stop_mk, Nat.add_sub_cancel_left]

theorem Decomposes.allFrom_eq (h : Decomposes w xs last) (pos : Nat) :
    allFrom pos 0 w = Segment.tokens pos xs := by
  induction xs generalizing w pos with
  | nil => exact allFrom_of_first?_eq_none (h.first?_nil pos)
  | cons x xs ih =>
    have hdrop : w.drop x.text.length = Segment.joined xs ++ last := by
      rw [h.text_eq, Segment.joined_cons, List.append_assoc, List.drop_left]
    have hstop : (⟨pos + x.gap.length, x.token⟩ : Token).stop = pos + x.text.length := by
      rw [stop_mk, Segment.text, List.length_append, Nat.add_assoc]
    rw [allFrom_of_first? (h.first?_cons pos), hstop, Nat.add_sub_cancel_left, hdrop, ih h.tail]
    rfl

theorem next_of_decomposes_nil (h : Decomposes (s.drop a) [] last) :
    next s a = .error .noToken := by
  rw [next, next?, Text.seek_eq, Int.toNat_natCast]
  simp only [h.first?_nil]

theorem next_of_decomposes_cons {x : Segment} (h : Decomposes (s.drop a) (x :: xs) last) :
    next s a = .ok ⟨a + x.gap.length, x.token⟩ := by
  apply next_of_first? _ (h.first?_cons a)
  obtain ⟨c, w, hc⟩ := List.exists_cons_of_ne_nil (h.isLexeme [] x xs rfl).ne_nil
  have htext := h.eq_text_append
  rw [hc] at htext
  exact Text.place_le_of_drop htext

theorem Decomposes.drop_tail {x : Segment} (h : Decomposes (s.drop a) (x :: xs) last) :
    Decomposes (s.drop (a + x.text.length)) xs last := by
  have hs : s.drop a = x.text ++ (Segment.joined xs ++ last) := by
    rw [h.text_eq, Segment.joined_cons, List.append_assoc]
  rw [Text.drop_of_drop_append hs]
  exact h.tail

theorem find_of_next {c : Char} (hc : isMark c = true) (h : next s a = .ok t) (ht : t.text = [c]) :
    s.find c a = t.start := by
  obtain ⟨xs, last, hxs⟩ := exists_decomposes (s.drop a)
  cases xs with
  | nil => cases (next_of_decomposes_nil hxs).symm.trans h
  | cons x xs =>
    obtain rfl := Except.ok.inj ((next_of_decomposes_cons hxs).symm.trans h)
    have htext := hxs.eq_text_append
    rw [show x.token = [c] from ht, List.singleton_append] at htext
    apply Text.find_of_drop htext
    intro hmem
    rw [(hxs.isGap x List.mem_cons_self).no_mark c hmem] at hc
    cases hc

end Token

namespace TokenReader

open Token (Decomposes)

variable {s last : Text} {a : Nat} {i : Int} {r r' : TokenReader} {t : Token} {ts : List Token}
  {current : Option Token}

def start (s : Text) (i : Int) : TokenReader := { text := s, pos := i }

inductive Yields : TokenReader → List Token → Prop
  | stop {r : TokenReader} (h : r.next = .error .noToken) : Yields r []
  | step {r r' : TokenReader} {t : Token} {ts : List Token} (h : r.next = .ok r')
      (ht : r'.current = some t) (hts : Yields r' ts) : Yields r (t :: ts)

def after (r : TokenReader) : (k : Nat) → Scan TokenReader
  | 0 => .ok r
  | k + 1 => do (← r.next).after k

theorem next_eq_ok (h : r.next = .ok r') :
    ∃ t, Token.next r.text r.pos = .ok t ∧ r' = ⟨r.text, t.stop, some t⟩ := by
  rw [next] at h
  cases ht : Token.next r.text r.pos with
  | error e => rw [ht] at h; cases h
  | ok t =>
    rw [ht] at h
    exact ⟨t, rfl, (Except.ok.inj h).symm⟩

theorem Yields.of_current (h : Yields r ts) (current : Option Token) :
    Yields { r with current } ts := by
  cases h with
  | stop h => exact .stop h
  | step h ht hts => exact .step h ht hts

theorem Yields.exists_after (h : Yields r ts) {k : Nat} (hk : ts[k]? = some t) :
    ∃ r', r.after (k + 1) = .ok r' ∧ r' = ⟨r.text, t.stop, some t⟩ ∧ Yields r' (ts.drop (k + 1)) := by
  induction h generalizing k with
  | stop h => cases hk
  | @step r r₁ t₁ ts h ht hts ih =>
    obtain ⟨t', -, rfl⟩ := next_eq_ok h
    cases k with
    | zero =>
      obtain rfl : t₁ = t := Option.some.inj hk
      obtain rfl : t' = t₁ := Option.some.inj ht
      exact ⟨_, by rw [after, h]; rfl, rfl, hts⟩
    | succ k =>
      obtain ⟨r', hr', rfl, hrest⟩ := ih hk
      exact ⟨_, by rw [after, h]; exact hr', rfl, hrest⟩

theorem yields_of_decomposes {xs : List Token.Segment} (h : Decomposes (s.drop a) xs last) :
    Yields ⟨s, a, current⟩ (Token.Segment.tokens a xs) := by
  induction xs generalizing a current with
  | nil =>
    refine .stop ?_
    rw [next, Token.next_of_decomposes_nil h]
    rfl
  | cons x xs ih =>
    have hnext : (⟨s, a, current⟩ : TokenReader).next =
        .ok ⟨s, (a + x.text.length : Nat), some ⟨a + x.gap.length, x.token⟩⟩ := by
      rw [next, Token.next_of_decomposes_cons h, Token.Segment.text, List.length_append,
        ← Nat.add_assoc]
      rfl
    exact .step hnext rfl (ih h.drop_tail)

theorem reads_decomposition (s : Text) (a : Nat) :
    ∃ xs last, Decomposes (s.drop a) xs last ∧
      (∀ ys last', Decomposes (s.drop a) ys last' → ys = xs ∧ last' = last) ∧
      (start s a).Yields (Token.Segment.tokens a xs) ∧
      (∀ k t, (Token.Segment.tokens a xs)[k]? = some t →
        (∃ r, (start s a).after (k + 1) = .ok r ∧ r.current = some t ∧ r.currentEnd = t.stop) ∧
        (start s t.stop).Yields ((Token.Segment.tokens a xs).drop (k + 1))) ∧
      (a = 0 → Token.all s = Token.Segment.tokens a xs ∧ (Token.all s).length = xs.length) ∧
      ∀ t, Token.next s a = .ok t → ∀ c ∈ [';', '{'], t.text = [c] → s.find c a = t.start := by
  obtain ⟨xs, last, h⟩ := Token.exists_decomposes (s.drop a)
  have hyields : (start s a).Yields (Token.Segment.tokens a xs) := yields_of_decomposes h
  refine ⟨xs, last, h, fun ys last' h' => h.unique h', hyields, ?_, ?_, ?_⟩
  · intro k t ht
    obtain ⟨r, hr, rfl, hrest⟩ := hyields.exists_after ht
    exact ⟨⟨_, hr, rfl, rfl⟩, hrest.of_current none⟩
  · rintro rfl
    have hall : Token.all s = Token.Segment.tokens 0 xs := h.allFrom_eq 0
    exact ⟨hall, by rw [hall, Token.Segment.length_tokens]⟩
  · intro t ht c hc htext
    have hmark : Token.isMark c = true := by
      simp only [List.mem_cons, List.not_mem_nil, or_false] at hc
      rcases hc with rfl | rfl <;> rfl
    exact Token.find_of_next hmark ht htext

example : Token.all "a:::b ;".toList =
    [⟨0, ['a']⟩, ⟨1, [':', ':']⟩, ⟨4, ['b']⟩, ⟨6, [';']⟩] := by decide

end TokenReader

end CodeAudit

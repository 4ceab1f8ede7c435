import CodeAudit.Proofs.Cleaning.Lines
import CodeAudit.Proofs.Pattern.Walk
import CodeAudit.Proofs.Text.Scanning
import Mathlib.Data.List.Infix

namespace CodeAudit

namespace Text

variable {a b c : Char} {s u v x y : Text}

theorem pair_infix_cons : [a, b] <:+: c :: s ↔ c = a ∧ s.head? = some b ∨ [a, b] <:+: s := by
  rw [List.infix_cons_iff, List.cons_prefix_cons, eq_comm]
  cases s with
  | nil => simp
  | cons d s => simp [List.cons_prefix_cons, eq_comm]

theorem pair_infix_append : [a, b] <:+: u ++ v ↔
    [a, b] <:+: u ∨ [a, b] <:+: v ∨ u.getLast? = some a ∧ v.head? = some b := by
  induction u with
  | nil => simp
  | cons c u ih =>
    rw [List.cons_append, pair_infix_cons, pair_infix_cons, ih]
    cases u with
    | nil => simp; tauto
    | cons d u => simp [List.getLast?_cons_cons]; tauto

theorem pair_of_append (h : u ++ v = x ++ a :: b :: y)
    (hseam : ¬(u.getLast? = some a ∧ v.head? = some b)) :
    (∃ z, u = x ++ a :: b :: z) ∨ ∃ z, v = z ++ a :: b :: y := by
  rcases List.append_eq_append_iff.mp h with ⟨z, -, hz⟩ | ⟨z, hu, hz⟩
  · exact .inr ⟨z, hz⟩
  · match z with
    | [] => exact .inr ⟨[], hz.symm⟩
    | [c] =>
      rw [List.singleton_append, List.cons_eq_cons] at hz
      obtain ⟨rfl, rfl⟩ := hz
      exact absurd ⟨by simp [hu], rfl⟩ hseam
    | c :: d :: z =>
      rw [List.cons_append, List.cons_append, List.cons_eq_cons, List.cons_eq_cons] at hz
      obtain ⟨rfl, rfl, -⟩ := hz
      exact .inl ⟨z, hu⟩

theorem exists_of_pair_infix_concat (h : [a, b] <:+: u ++ [c]) (v : Text) :
    ∃ x y, x.length < u.length ∧ u ++ c :: v = x ++ a :: b :: (y ++ v) := by
  obtain ⟨x, y, hxy⟩ := h
  have hlen := congrArg List.length hxy
  simp only [List.length_append, List.length_cons, List.length_nil] at hlen
  refine ⟨x, y, by omega, ?_⟩
  calc u ++ c :: v = u ++ [c] ++ v := by simp
    _ = x ++ a :: b :: (y ++ v) := by rw [← hxy]; simp

end Text

namespace Cleaning

open Pattern Text

variable {s t u v w : Text}

theorem not_pair_before {p : Pattern} {m : Match} {a b c : Char} (hm : p.search s 0 = some m)
    (hs : s = s.take m.start ++ c :: v)
    (hfound : ∀ k y, s.drop k = a :: b :: (y ++ v) → ∃ n, p.matchAt s (k : Nat) = some n) :
    ¬[a, b] <:+: s.take m.start ++ [c] := by
  obtain ⟨-, hle, hbefore⟩ := search_first hm
  intro h
  obtain ⟨x, y, hlt, hxy⟩ := exists_of_pair_infix_concat h v
  rw [← hs] at hxy
  rw [List.length_take_of_le hle] at hlt
  have hearlier : s.drop x.length = a :: b :: (y ++ v) := by rw [hxy, List.drop_left]
  obtain ⟨n, hn⟩ := hfound x.length y hearlier
  rw [hbefore x.length hlt] at hn
  cases hn

theorem inLine_has {c : Char} : CharClass.inLine.has c = true ↔ c ≠ '\n' := by
  simp [CharClass.inLine, CharClass.has]

theorem matchAt_lineComment {a : Nat} (hs : s.drop a = '/' :: '/' :: (w ++ v)) (hw : '\n' ∉ w)
    (hv : ∀ b ∈ v.head?, b = '\n') :
    Shape.lineComment.matchAt s a = some ⟨a, a + 2 + w.length, []⟩ := by
  have ha : a ≤ s.length := by have := le_length_of_drop (u := []) hs; omega
  apply matchAt_of_walk (y := ⟨a + 2 + w.length, v, []⟩) ha
  have hopen : (placeAt s a).rest = "//".toList ++ (w ++ v) := hs
  rw [Shape.lineComment, walk_cat, walk_lit hopen]
  apply walk_whole_run (w := w) rfl
  · intro b hb
    exact inLine_has.mpr (ne_of_mem_of_not_mem hb hw)
  · exact Nat.zero_le _
  · intro b hb
    rw [hv b hb]
    rfl
  · rfl

theorem exists_line_end (s : Text) :
    ∃ w v, s = w ++ v ∧ '\n' ∉ w ∧ ∀ b ∈ v.head?, b = '\n' := by
  induction s with
  | nil => exact ⟨[], [], rfl, by simp, by simp⟩
  | cons c s ih =>
    by_cases hc : c = '\n'
    · exact ⟨[], c :: s, rfl, by simp, by simpa using hc⟩
    · obtain ⟨w, v, rfl, hw, hv⟩ := ih
      exact ⟨c :: w, v, rfl, by simp [Ne.symm hc, hw], hv⟩

theorem isSome_matchAt_lineComment {a : Nat} (hs : s.drop a = '/' :: '/' :: v) :
    ∃ m, Shape.lineComment.matchAt s a = some m := by
  obtain ⟨w, r, rfl, hw, hr⟩ := exists_line_end v
  exact ⟨_, matchAt_lineComment hs hw hr⟩

theorem lineCommentRound_cases (s : Text) :
    (¬['/', '/'] <:+: s ∧ lineCommentRound s = .done s) ∨
      ∃ u w v, s = u ++ '/' :: '/' :: (w ++ v) ∧ ¬['/', '/'] <:+: u ++ ['/'] ∧ '\n' ∉ w ∧
        (∀ b ∈ v.head?, b = '\n') ∧ lineCommentRound s = .again (u ++ v) := by
  cases hm : Shape.lineComment.search s 0 with
  | none =>
    refine .inl ⟨?_, by simp only [lineCommentRound, hm]⟩
    rintro ⟨u, v, rfl⟩
    have hs : (u ++ ['/', '/'] ++ v).drop u.length = '/' :: '/' :: v := by simp
    obtain ⟨m, hfound⟩ := isSome_matchAt_lineComment hs
    rw [search_eq_none hm u.length (by simp)] at hfound
    cases hfound
  | some m =>
    obtain ⟨hat, hle, -⟩ := search_first hm
    obtain ⟨_, r, hs, -, -, _, t, rfl, rfl, -, -⟩ := reads_of_matchAt (by decide) hle hat
    obtain ⟨w, v, hwv, hw, hv⟩ := exists_line_end (t ++ r)
    have hopen : s.drop m.start = '/' :: '/' :: (w ++ v) := by
      rw [hs, ← hwv, List.append_assoc]
      rfl
    have hm' := Option.some.inj (hat.symm.trans (matchAt_lineComment hopen hw hv))
    have hstop : s.drop m.stop = v := by
      have hlen : m.stop = m.start + 2 + w.length := congrArg Match.stop hm'
      have h := drop_of_drop_append (u := '/' :: '/' :: w) hopen
      rwa [List.length_cons, List.length_cons, Nat.add_comm w.length, Nat.add_comm _ 1,
        ← Nat.add_assoc, ← Nat.add_assoc, ← hlen] at h
    have hsplit : s = s.take m.start ++ '/' :: '/' :: (w ++ v) := by
      rw [← hopen, List.take_append_drop]
    refine .inr ⟨s.take m.start, w, v, hsplit, ?_, hw, hv, ?_⟩
    · exact not_pair_before hm hsplit fun _ _ hearlier => isSome_matchAt_lineComment hearlier
    · simp only [lineCommentRound, hm, splice, List.append_nil, hstop]

theorem exists_first_close (h : ['*', '/'] <:+: s) :
    ∃ w v, s = w ++ '*' :: '/' :: v ∧ ¬['*', '/'] <:+: w := by
  induction s with
  | nil => simp at h
  | cons c s ih =>
    by_cases hc : c = '*' ∧ s.head? = some '/'
    · obtain ⟨rfl, hs⟩ := hc
      obtain ⟨r, rfl⟩ := List.head?_eq_some_iff.mp hs
      exact ⟨[], r, rfl, by simp⟩
    · obtain ⟨w, v, rfl, hw⟩ := ih ((pair_infix_cons.mp h).resolve_left hc)
      refine ⟨c :: w, v, rfl, ?_⟩
      rw [pair_infix_cons, not_or]
      refine ⟨?_, hw⟩
      rintro ⟨rfl, hhead⟩
      obtain ⟨r, rfl⟩ := List.head?_eq_some_iff.mp hhead
      exact hc ⟨rfl, rfl⟩

theorem matchAt_blockComment {a : Nat} (hs : s.drop a = '/' :: '*' :: (w ++ '*' :: '/' :: v))
    (hw : ¬['*', '/'] <:+: w) :
    Shape.blockComment.matchAt s a = some ⟨a, a + 2 + w.length + 2, []⟩ := by
  have ha : a ≤ s.length := by have := le_length_of_drop (u := []) hs; omega
  apply matchAt_of_walk (y := ⟨a + 2 + w.length + 2, v, []⟩) ha
  have hopen : (placeAt s a).rest = "/*".toList ++ (w ++ '*' :: '/' :: v) := hs
  rw [Shape.blockComment, walk_cat, walk_cat, walk_lit hopen]
  apply walk_lazy (w := w) rfl
  · intro b hb
    rfl
  · exact Nat.zero_le _
  · exact walk_lit (v := v) rfl
  · intro u t ht hne _
    apply walk_lit_none
    intro hclose
    obtain ⟨c, t, rfl⟩ := List.exists_cons_of_ne_nil hne
    have hpre : ['*', '/'] <+: c :: (t ++ '*' :: '/' :: v) := hclose
    obtain ⟨rfl, hnext⟩ := List.cons_prefix_cons.mp hpre
    cases t with
    | nil => exact absurd (List.cons_prefix_cons.mp hnext).1 (by decide)
    | cons d t =>
      obtain ⟨rfl, -⟩ := List.cons_prefix_cons.mp hnext
      exact hw ⟨u, t, by simp [ht]⟩

theorem isSome_matchAt_blockComment {a : Nat} (hs : s.drop a = '/' :: '*' :: v)
    (hv : ['*', '/'] <:+: v) : ∃ m, Shape.blockComment.matchAt s a = some m := by
  obtain ⟨w, r, rfl, hw⟩ := exists_first_close hv
  exact ⟨_, matchAt_blockComment hs hw⟩

theorem blockCommentRound_cases (s : Text) :
    ((∀ u v, s = u ++ '/' :: '*' :: v → ¬['*', '/'] <:+: v) ∧ blockCommentRound s = .done s) ∨
      ∃ u w v, s = u ++ '/' :: '*' :: (w ++ '*' :: '/' :: v) ∧ ¬['/', '*'] <:+: u ++ ['/'] ∧
        ¬['*', '/'] <:+: w ∧
        blockCommentRound s = .again (u ++ List.replicate (w.count '\n') '\n' ++ v) := by
  cases hm : Shape.blockComment.search s 0 with
  | none =>
    refine .inl ⟨?_, by simp only [blockCommentRound, hm]⟩
    rintro u v rfl hv
    have hs : (u ++ '/' :: '*' :: v).drop u.length = '/' :: '*' :: v := List.drop_left
    obtain ⟨m, hfound⟩ := isSome_matchAt_blockComment hs hv
    rw [search_eq_none hm u.length (by simp)] at hfound
    cases hfound
  | some m =>
    obtain ⟨hat, hle, -⟩ := search_first hm
    obtain ⟨_, r, hs, -, -, _, _, rfl, ⟨_, t, rfl, rfl, -⟩, rfl⟩ :=
      reads_of_matchAt (by decide) hle hat
    -- what is read may hold an end of a comment, but the match is the one that stops at the first
    have hclosed : ['*', '/'] <:+: t ++ '*' :: '/' :: r := ⟨t, r, by simp⟩
    obtain ⟨w, v, hwv, hw⟩ := exists_first_close hclosed
    have hopen : s.drop m.start = '/' :: '*' :: (w ++ '*' :: '/' :: v) := by
      rw [hs, ← hwv]
      simp
    have hm' := Option.some.inj (hat.symm.trans (matchAt_blockComment hopen hw))
    have hwhole : s.drop m.start = '/' :: '*' :: (w ++ ['*', '/']) ++ v := by simp [hopen]
    have hlen : m.stop = m.start + ('/' :: '*' :: (w ++ ['*', '/'])).length := by
      have hstop : m.stop = m.start + 2 + w.length + 2 := congrArg Match.stop hm'
      simp only [List.length_cons, List.length_append, List.length_nil]
      omega
    have htext : m.text s = '/' :: '*' :: (w ++ ['*', '/']) := drop_take_eq_of_drop_eq hwhole hlen
    have hrest : s.drop m.stop = v := by
      rw [hlen]
      exact drop_of_drop_append hwhole
    have hsplit : s = s.take m.start ++ '/' :: '*' :: (w ++ '*' :: '/' :: v) := by
      rw [← hopen, List.take_append_drop]
    refine .inr ⟨s.take m.start, w, v, hsplit, ?_, hw, ?_⟩
    · apply not_pair_before hm hsplit
      intro k y hearlier
      exact isSome_matchAt_blockComment hearlier ⟨y ++ '*' :: w, v, by simp⟩
    · have hcount : (m.text s).count '\n' = w.count '\n' := by
        rw [htext]
        simp
      simp only [blockCommentRound, hm, splice, hcount, hrest]

def TakesOut (s t : Text) : Prop :=
  ∃ u w v, s = u ++ w ++ v ∧ w ≠ [] ∧ t = u ++ (List.replicate (w.count '\n') '\n' ++ v) ∧
    ∀ x y, ∀ d ∈ ['/', '*'], t = x ++ '/' :: d :: y →
      (∃ z, u = x ++ '/' :: d :: z) ∨ ∃ z, v = z ++ '/' :: d :: y

theorem takesOut_of_seam (hw : w ≠ [])
    (hseam : ∀ d ∈ ['/', '*'],
      ¬(u.getLast? = some '/' ∧ (List.replicate (w.count '\n') '\n' ++ v).head? = some d)) :
    TakesOut (u ++ w ++ v) (u ++ (List.replicate (w.count '\n') '\n' ++ v)) := by
  refine ⟨u, w, v, rfl, hw, rfl, ?_⟩
  intro x y d hd hmark
  refine (pair_of_append hmark (hseam d hd)).imp id ?_
  rintro ⟨z, hz⟩
  have hbreaks : ∀ c ∈ List.replicate (w.count '\n') '\n', c ≠ '/' := by
    intro c hc
    rw [List.eq_of_mem_replicate hc]
    decide
  have hlast : (List.replicate (w.count '\n') '\n').getLast? ≠ some '/' :=
    fun h => hbreaks '/' (List.mem_of_getLast? h) rfl
  rcases pair_of_append hz (fun h => hlast h.1) with ⟨r, hr⟩ | hr
  · exact absurd rfl (hbreaks '/' (by simp [hr]))
  · exact hr

theorem TakesOut.no_line (h : TakesOut s t) (hs : ¬['/', '/'] <:+: s) : ¬['/', '/'] <:+: t := by
  obtain ⟨u, w, v, rfl, -, -, hmarks⟩ := h
  rintro ⟨x, y, hxy⟩
  rcases hmarks x y '/' (by simp) (by simp [← hxy]) with ⟨z, rfl⟩ | ⟨z, rfl⟩
  · exact hs ⟨x, z ++ w ++ v, by simp⟩
  · exact hs ⟨u ++ w ++ z, y, by simp⟩

theorem lineCommentRound_takesOut (h : lineCommentRound s = .again t) : TakesOut s t := by
  rcases lineCommentRound_cases s with ⟨-, hdone⟩ | ⟨u, w, v, hs, -, hw, hv, hagain⟩
  · rw [hdone] at h
    cases h
  · rw [hagain] at h
    obtain rfl := Round.again.inj h
    have hcount : ('/' :: '/' :: w).count '\n' = 0 := List.count_eq_zero.mpr (by simpa using hw)
    have hout := takesOut_of_seam (u := u) (w := '/' :: '/' :: w) (v := v) (by simp) ?_
    · rw [hcount] at hout
      rw [hs]
      simpa using hout
    · rw [hcount]
      rintro d hd ⟨-, hhead⟩
      rw [hv d hhead] at hd
      exact absurd hd (by decide)

theorem blockCommentRound_takesOut (hline : ¬['/', '/'] <:+: s) (h : blockCommentRound s = .again t) :
    TakesOut s t := by
  rcases blockCommentRound_cases s with ⟨-, hdone⟩ | ⟨u, w, v, hs, -, -, hagain⟩
  · rw [hdone] at h
    cases h
  · rw [hagain] at h
    obtain rfl := Round.again.inj h
    have hcount : ('/' :: '*' :: (w ++ ['*', '/'])).count '\n' = w.count '\n' := by simp
    have hout := takesOut_of_seam (u := u) (w := '/' :: '*' :: (w ++ ['*', '/'])) (v := v)
      (by simp) ?_
    · rw [hcount] at hout
      rw [hs]
      simpa using hout
    · rintro d - ⟨hlast, -⟩
      apply hline
      rw [hs, pair_infix_append]
      exact .inr (.inr ⟨hlast, rfl⟩)

end Cleaning

end CodeAudit

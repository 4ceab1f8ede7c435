import CodeAudit.Proofs.Pattern.FinalBreak
import CodeAudit.Proofs.Statement.Ends

/-!
Statements in a text with a line break after it. A place that is looked for in vain is `-1`, and a
character at `-1` is the last one of the text; where no such character counts, statements are found
as without the line break.
-/

namespace CodeAudit

open Scan

variable {s : Text} {i : Int} {p : Pattern} {m : Match}

/-- The end of the text is not taken for the end of anything that the text leaves open. -/
structure Text.PlainEnd (s : Text) : Prop where
  -- a cast is looked for before the end of its line
  cast : ∀ a : Nat, a ≤ s.length → '\n' ∉ s.drop a → Shape.plainCast.matchAt s a = none
  -- a stream statement goes on after the first character that follows the operator
  stream : ∀ u w e, ∀ mark ∈ ["<<".toList, ">>".toList], (∀ b ∈ w, isBlank b = true) →
    e ≠ '\n' → s ≠ u ++ mark ++ w ++ [e]
  -- in each of these a bracket that is missing is taken to be the last character
  foreachLoop : ∀ b : Bracket, s.getLast? = some b.opening → ∀ i m head,
    Shape.foreachHead.matchAt s i = some m → Bracket.paren.partner s (m.stop - 1) = .ok head →
    s.find '{' (head + 1) ≠ -1
  doLoop : s.getLast? = some '}' → ∀ i m, Shape.doHead.matchAt s i = some m →
    Bracket.brace.partner s (m.stop - 1) ≠ .ok (-1)
  parameters : s.getLast? = some ')' → ∀ p ∈ [Shape.function, Shape.operator, Shape.constructor],
    ∀ i m, p.matchAt s i = some m → Bracket.paren.partner s (m.stop - 1) ≠ .ok (-1)

theorem Text.plainEnd_ended (s : Text) : s.ended.PlainEnd := by
  have hlast : s.ended.getLast? = some '\n' := List.getLast?_concat
  constructor
  · intro a ha hline
    apply Pattern.matchAt_of_not_staysIn (k := .among []) (by decide) (by decide) ha
    intro b hb
    refine absurd ?_ hline
    by_cases hle : a ≤ s.length
    · rw [drop_ended hle]
      simp
    · rw [drop_ended_of_lt (by omega)] at hb
      cases hb
  · intro u w e mark _ _ he hs
    obtain ⟨-, hbreak⟩ := List.append_inj' hs rfl
    exact he (List.cons.inj hbreak).1.symm
  · intro b hb
    rw [hlast] at hb
    cases b <;> exact absurd hb (by decide)
  · intro h
    rw [hlast] at h
    exact absurd h (by decide)
  · intro h
    rw [hlast] at h
    exact absurd h (by decide)

namespace Shape

open Pattern

def streamLead : Pattern :=
  many1 .inLine ++ blanks ++ oneOf ["<<", ">>"] ++ blanks ++ one .inLine

theorem stream_eq : stream = streamLead ++ many1 (.other (.among [';'])) := rfl

theorem rest_ne_nil_of_streamLead {a : Nat} {y : Place} (h : s.PlainEnd)
    (hy : y ∈ streamLead.ends s ⟨a, s.drop a, []⟩) : y.rest ≠ [] := by
  obtain ⟨w, hw, -, hreads⟩ := reads_of_mem_ends (by decide) hy
  intro hrest
  obtain ⟨w, e', rfl, ⟨w, blank, rfl, ⟨w, mark, rfl, ⟨u, v, rfl, -, -⟩, hmark⟩, hblank⟩, e, rfl, he⟩ := hreads
  have hmem : mark ∈ ["<<".toList, ">>".toList] := by
    rcases hmark with rfl | rfl <;> simp
  refine h.stream (s.take a ++ (u ++ v)) blank e mark hmem hblank.1 ?_ ?_
  · rintro rfl
    cases he
  · rw [hrest, List.append_nil] at hw
    calc s = s.take a ++ s.drop a := (List.take_append_drop a s).symm
      _ = s.take a ++ (u ++ v ++ mark ++ blank ++ [e]) := congrArg _ hw
      _ = s.take a ++ (u ++ v) ++ mark ++ blank ++ [e] := by simp only [List.append_assoc]

end Shape

namespace Statement

open Pattern

theorem whole_ended (hp : p.endsInLine = true) (s : Text) (i : Int) :
    whole p s.ended i = whole p s i := by
  rw [whole, whole, Pattern.matchAt_ended hp]

theorem upTo_ended {c : Char} (hc : c ≠ '\n') (hp : p.endsInLine = true) (s : Text) (i : Int) :
    upTo c p s.ended i = upTo c p s i := by
  rw [upTo, upTo, Pattern.matchAt_ended hp]
  simp only [Text.find_ended hc (Int.natCast_nonneg _)]

theorem staticMember_ended (s : Text) (i : Int) : staticMember s.ended i = staticMember s i := by
  rw [staticMember, staticMember, Pattern.matchAt_ended (by decide)]
  simp only [Text.find_ended (by decide : ';' ≠ '\n') (Int.natCast_nonneg _)]

theorem conditional_ended (s : Text) (i : Int) : conditional s.ended i = conditional s i := by
  rw [conditional, conditional, Pattern.matchAt_ended (by decide)]
  cases hm : Shape.conditional.matchAt s i with
  | none => rfl
  | some m =>
    obtain ⟨-, -, hle, -⟩ := Pattern.matchAt_eq_some hm
    rw [Option.map_some, Option.map_some, Text.lineEnd_ended (by omega)]

theorem partner_refined (b : Bracket) (hp : p.endsInLine = true) (hm : p.matchAt s i = some m) :
    (b.partner s (m.stop - 1)).Refined (b.partner s.ended (m.stop - 1)) := by
  have hlt := Pattern.start_lt_stop hp hm
  exact b.partner_ended (by omega)

theorem braced_refined (hp : p.endsInLine = true) (s : Text) (i : Int) :
    (braced p s i).Refined (braced p s.ended i) := by
  rw [braced, braced, Pattern.matchAt_ended hp]
  cases hm : p.matchAt s i with
  | none => exact Refined.refl _
  | some m => exact (partner_refined .brace hp hm).bind fun _ _ => Refined.refl _

theorem forStatement_refined (s : Text) (i : Int) :
    (forStatement s i).Refined (forStatement s.ended i) :=
  (braced_refined (by decide) s i).bind fun _ _ => Refined.refl _

theorem doStatement_refined (h : s.PlainEnd) (i : Int) :
    (doStatement s i).Refined (doStatement s.ended i) := by
  apply (braced_refined (by decide) s i).bind
  intro found hfound
  cases found with
  | none => exact Refined.refl _
  | some x =>
    obtain ⟨m, hm, hstop⟩ := braced_ends _ _ _ _ hfound x rfl
    have hle := (braced_begins _ _ hfound x rfl).2
    by_cases hx : x.stop = -1
    · apply Refined.of_fails
      simp only [ensures_bind]
      intro c hc
      rw [hx] at hc hstop
      split
      · simp only [ensures_bind, ensures_throw]
      · rename_i hne
        obtain rfl : c = '}' := by simpa using hne
        exact absurd hstop (h.doLoop (Text.getLast?_of_charAt hc) i m hm)
    · apply (Text.charAt_ended (by omega)).bind
      intro c _
      apply Refined.ite
      · intro _
        exact refined_throw_bind _ _ _
      · intro _
        simp only [Token.next_ended, Text.find_ended (by decide : ';' ≠ '\n')
          (show 0 ≤ x.stop + 1 by omega)]
        exact Refined.refl _

theorem foreachStatement_refined (h : s.PlainEnd) (i : Int) :
    (foreachStatement s i).Refined (foreachStatement s.ended i) := by
  rw [foreachStatement, foreachStatement, Pattern.matchAt_ended (by decide)]
  cases hm : Shape.foreachHead.matchAt s i with
  | none => exact Refined.refl _
  | some m =>
    have hstop := Pattern.start_lt_stop (by decide) hm
    apply (partner_refined .paren (by decide) hm).bind
    intro head hhead
    have hle := Bracket.neg_one_le_partner .paren (show -1 ≤ (m.stop : Int) - 1 by omega) head hhead
    rw [Text.find_ended (by decide) (by omega)]
    by_cases hfind : s.find '{' (head + 1) = -1
    · apply Refined.of_fails
      rw [hfind]
      simp only [Bracket.partner, ensures_bind]
      intro c hc
      split
      · rename_i hopen
        obtain ⟨b, -, hb⟩ := List.any_eq_true.mp hopen
        have hlast : s.getLast? = some b.opening := by
          rw [Text.getLast?_of_charAt hc, eq_of_beq hb]
        exact absurd hfind (h.foreachLoop b hlast i m head hm hhead)
      · simp
    · have hle := Text.neg_one_le_find s '{' (head + 1)
      exact (Bracket.partner_ended .brace (by omega)).bind fun _ _ => Refined.refl _

theorem struct_ends {x : Span} (hfound : braced Shape.struct s i = .ok (some x)) (hx : x.stop ≠ -1)
    (hlast : s.getLast? = some ';') : s.find ';' (x.stop + 1) ≠ -1 := by
  obtain ⟨m, hm, hstop⟩ := braced_ends _ _ _ _ hfound x rfl
  have hlt := Pattern.start_lt_stop (by decide) hm
  obtain ⟨d, hd, hend⟩ := Pattern.last_of_matchAt (by decide) hm
  obtain rfl : '{' = d := eq_of_beq ((Pattern.mayEndWith_cat_lit _ _ _).symm.trans hend)
  have hpos : ((m.stop - 1 : Nat) : Int) = m.stop - 1 := by omega
  rw [← hpos] at hstop
  obtain hno | ⟨n, hn, hclose⟩ := Bracket.partner_closing (b := .brace) hd _ hstop
  · exact absurd hno hx
  · rw [List.getLast?_eq_getElem?] at hlast
    have hlen := (List.getElem?_eq_some_iff.mp hclose).1
    have hne : n ≠ s.length - 1 := by
      rintro rfl
      rw [hlast] at hclose
      cases hclose
    rcases Text.find_cases s ';' (x.stop + 1) with ⟨-, hno⟩ | ⟨k, hk, -⟩
    · have hplace : s.bound (x.stop + 1) = n + 1 := by
        rw [hn, ← Int.natCast_succ, Text.bound_natCast]
      rw [hplace] at hno
      exact absurd (Text.mem_drop_of_getElem? (by omega) hlast) hno
    · omega

theorem struct_refined (s : Text) (i : Int) : (struct s i).Refined (struct s.ended i) := by
  apply (braced_refined (by decide) s i).bind
  intro found hfound
  cases found with
  | none => exact Refined.refl _
  | some x =>
    have hle := (braced_begins _ _ hfound x rfl).2
    apply Refined.ite
    · intro _
      exact refined_throw_bind _ _ _
    · intro hne
      have hx : x.stop ≠ -1 := by simpa using hne
      have hfind := Text.find_ended (s := s) (by decide : ';' ≠ '\n') (show 0 ≤ x.stop + 1 by omega)
      dsimp only
      rw [hfind]
      by_cases hend : s.find ';' (x.stop + 1) = -1
      · apply Refined.of_fails
        rw [hend]
        simp only [ensures_bind]
        intro c hc
        split
        · simp only [ensures_bind, ensures_throw]
        · rename_i hsemicolon
          obtain rfl : c = ';' := by simpa using hsemicolon
          exact absurd hend (struct_ends hfound hx (Text.getLast?_of_charAt hc))
      · have hle := Text.neg_one_le_find s ';' (x.stop + 1)
        exact (Text.charAt_ended (by omega)).bind fun _ _ => Refined.refl _

theorem branchEnd_refined (s : Text) (t : Token) (hi : 0 ≤ i) :
    (branchEnd s t i).Refined (branchEnd s.ended t i) := by
  apply Refined.ite
  · intro _
    exact (Bracket.partner_ended .brace (by omega)).bind fun _ _ => Refined.refl _
  · intro _
    rw [Text.find_ended (by decide) hi]
    exact Refined.refl _

theorem elseRound_refined (s : Text) (stop : Int) :
    (elseRound s stop).Refined (elseRound s.ended stop) := by
  have hagain : ∀ t : Token, ((branchEnd s t t.stop) >>= fun e => pure (Round.again e) :
      Scan (Round Int Int)).Refined (branchEnd s.ended t t.stop >>= fun e => pure (.again e)) :=
    fun t => (branchEnd_refined s t (Int.natCast_nonneg _)).bind fun _ _ => Refined.refl _
  apply (Refined.of_eq (Token.next_ended s _)).bind
  intro t _
  apply Refined.ite
  · intro _
    apply (Refined.of_eq (Token.next_ended s _)).bind
    intro u _
    apply Refined.ite
    · intro _
      apply (Refined.of_eq (Token.next_ended s _)).bind
      intro v _
      apply Refined.ite
      · intro _
        apply (Bracket.partner_ended .paren (Int.natCast_nonneg _)).bind
        intro head _
        apply (Refined.of_eq (Token.next_ended s _)).bind
        intro w _
        exact hagain w
      · intro _
        exact refined_throw_bind _ _ _
    · intro _
      exact hagain u
  · intro _
    exact Refined.refl _

theorem ifStatement_refined (s : Text) (i : Int) :
    (ifStatement s i).Refined (ifStatement s.ended i) := by
  rw [ifStatement, ifStatement, Pattern.matchAt_ended (by decide)]
  cases hm : (Shape.indented Shape.ifHead).matchAt s i with
  | none => exact Refined.refl _
  | some m =>
    apply (partner_refined .paren (by decide) hm).bind
    intro head _
    apply Refined.ite
    · intro _
      exact refined_throw_bind _ _ _
    · intro _
      apply (Refined.of_eq (Token.next_ended s _)).bind
      intro t _
      apply (branchEnd_refined s t (Int.natCast_nonneg _)).bind
      intro stop _
      have hrounds : (rounds (elseRound s) (s.length + 2) stop).Refined
          (rounds (elseRound s.ended) (s.ended.length + 2) stop) := by
        apply Refined.rounds (fun _ => True) (fun e _ => elseRound_refined s e)
        · exact fun _ _ _ _ _ _ => trivial
        · rw [Text.length_ended]
          omega
        · trivial
      exact hrounds.bind fun _ _ => Refined.refl _

theorem upTo_eq (c : Char) (p : Pattern) (s : Text) (i : Int) :
    upTo c p s i = ((p.ends s (placeAt s (min i.toNat s.length))).head?.map fun z =>
      s.find c z.pos).map fun stop => ⟨(min i.toNat s.length : Nat), stop⟩ := by
  rw [upTo, matchAt_eq_matchHere, matchHere_eq, Option.map_map, Option.map_map]
  rfl

theorem head?_flatMap_ended {l : List Place}
    (hl : ∀ y ∈ l, s.drop y.pos = y.rest ∧ y.pos ≤ s.length ∧ y.rest ≠ []) :
    (((l.map (Place.extend '\n')).flatMap ((many1 (.other (.among [';']))).ends s.ended)).head?.map
        fun z => s.ended.find ';' z.pos) =
      (l.flatMap ((many1 (.other (.among [';']))).ends s)).head?.map fun z => s.find ';' z.pos := by
  induction l with
  | nil => rfl
  | cons y l ih =>
    obtain ⟨hdrop, hpos, hrest⟩ := hl y List.mem_cons_self
    have hextend : s.ended.drop (y.extend '\n').pos = (y.extend '\n').rest := by
      change s.ended.drop y.pos = y.rest ++ ['\n']
      rw [Text.drop_ended hpos, hdrop]
    have hhead : (y.extend '\n').rest.head? = y.rest.head? := List.head?_append_of_ne_nil _ hrest
    have hfind : s.ended.find ';' (y.extend '\n').pos = s.find ';' y.pos :=
      Text.find_ended (by decide) (Int.natCast_nonneg _)
    rw [List.map_cons, List.flatMap_cons, List.flatMap_cons, List.head?_append, List.head?_append,
      Option.map_or, Option.map_or, ih fun z hz => hl z (List.mem_cons_of_mem _ hz),
      head?_ends_many1_other hextend, head?_ends_many1_other hdrop, hhead, hfind]

theorem streamStatement_ended (h : s.PlainEnd) (i : Int) :
    streamStatement s.ended i = streamStatement s i := by
  rw [streamStatement, upTo_eq, upTo_eq, Text.length_ended]
  by_cases hi : i.toNat ≤ s.length
  · rw [Nat.min_eq_left hi, Nat.min_eq_left (by omega)]
    apply congrArg (Option.map _)
    have hplace : placeAt s.ended i.toNat = (placeAt s i.toNat).extend '\n' := by
      rw [placeAt, Text.drop_ended hi]
      rfl
    rw [hplace, Shape.stream_eq]
    have hfollow : ∀ y : Place, (!y.rest.isEmpty) = false →
        (many1 (.other (.among [';']))).ends s.ended y = [] := by
      intro y hy
      exact ends_eq_nil (by decide) (by decide) (by simpa using hy)
    change (((Shape.streamLead.ends s.ended ((placeAt s i.toNat).extend '\n')).flatMap
        ((many1 (.other (.among [';']))).ends s.ended)).head?.map _) =
      ((Shape.streamLead.ends s (placeAt s i.toNat)).flatMap
        ((many1 (.other (.among [';']))).ends s)).head?.map _
    rw [← flatMap_filter _ hfollow, ends_extend (by decide) '\n' s s.ended]
    apply head?_flatMap_ended
    intro y hy
    obtain ⟨-, hpos, hdrop⟩ := placeAt_onward hi (ends_onward hy)
    exact ⟨hdrop.symm, hpos, Shape.rest_ne_nil_of_streamLead h hy⟩
  · rw [Nat.min_eq_right (by omega), Nat.min_eq_right (by omega),
      ends_eq_nil (by decide) (by decide) (List.drop_eq_nil_of_le
        (Nat.le_of_eq (Text.length_ended s))),
      ends_eq_nil (by decide) (by decide) (List.drop_length ..)]
    rfl

end Statement

end CodeAudit

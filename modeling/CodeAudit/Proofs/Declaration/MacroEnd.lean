import CodeAudit.Declaration.Directive
import CodeAudit.Proofs.Pattern.Walk
import CodeAudit.Proofs.Runs
import CodeAudit.Proofs.Text.Identifier
import CodeAudit.Proofs.Text.Scanning

namespace CodeAudit.Declaration

open Pattern Text

variable {s u r : Text} {a b pos : Nat} {d : Char}

def endsLine (s : Text) (q : Nat) : Bool :=
  s[q]? == some '\n' && s[q - 1]? != some '\\'

def logicalEnd (s : Text) (a : Nat) : Nat :=
  ((List.range s.length).find? fun q => a ≤ q && endsLine s q).getD s.length

/-- The text ends before the logical line does: a backslash is its last character. -/
def OpenEnded (s : Text) (a : Nat) : Prop :=
  logicalEnd s a = s.length ∧ s.getLast? = some '\\'

theorem logicalEnd_eq_of_not (hab : a ≤ b) (h : ∀ q, a ≤ q → q < b → endsLine s q = false) :
    logicalEnd s a = logicalEnd s b := by
  have hsame : (fun q => decide (a ≤ q) && endsLine s q) =
      fun q => decide (b ≤ q) && endsLine s q := by
    funext q
    by_cases hq : b ≤ q
    · simp [hq, Nat.le_trans hab hq]
    · by_cases haq : a ≤ q
      · simp [hq, h q haq (by omega)]
      · simp [hq, haq]
  rw [logicalEnd, hsame, logicalEnd]

theorem logicalEnd_of_endsLine (h : endsLine s a = true) : logicalEnd s a = a := by
  have hlt : a < s.length := by
    rw [endsLine, Bool.and_eq_true, beq_iff_eq] at h
    exact (List.getElem?_eq_some_iff.mp h.1).1
  have hfind : (List.range s.length).find? (fun q => a ≤ q && endsLine s q) = some a := by
    rw [List.find?_range_eq_some]
    refine ⟨by simp [h], List.mem_range.mpr hlt, ?_⟩
    intro q hq
    simp [Nat.not_le.mpr hq]
  rw [logicalEnd, hfind, Option.getD_some]

theorem logicalEnd_length (s : Text) : logicalEnd s s.length = s.length := by
  have hfind : (List.range s.length).find? (fun q => s.length ≤ q && endsLine s q) = none := by
    rw [List.find?_eq_none]
    intro q hq
    simp [Nat.not_le.mpr (List.mem_range.mp hq)]
  rw [logicalEnd, hfind, Option.getD_none]

theorem macroEndRound_eq {i : Int} {stop : Nat} (hstop : s.lineEnd i = stop) (hpos : 1 ≤ stop)
    (hlen : stop ≤ s.length) :
    macroEndRound s i = .ok (if s[stop - 1]? = some '\\' then .again (stop + 1 : Nat)
      else .done stop) := by
  have hlt : stop - 1 < s.length := by omega
  have hplace : (stop : Int) - 1 = (stop - 1 : Nat) := by omega
  have hchar : s.charAt (stop - 1 : Nat) = .ok s[stop - 1] :=
    charAt_of_drop (List.drop_eq_getElem_cons hlt)
  simp only [macroEndRound, hstop, hplace, hchar, bind, Except.bind, List.getElem?_eq_getElem hlt,
    Option.some.injEq, beq_iff_eq]
  split <;> rfl

theorem leads_beyond_end (hlast : s.getLast? = some '\\') :
    Leads (macroEndRound s) (s.length + 1 : Nat) (s.length + 1 : Nat) := by
  have hend : s.lineEnd (s.length + 1 : Nat) = s.length := by
    rw [lineEnd, seek_eq, List.drop_eq_nil_of_le (by omega), Nat.min_eq_right (by omega)]
    rfl
  have hpos : 1 ≤ s.length := List.length_pos_of_mem (List.mem_of_getLast? hlast)
  rw [Leads, macroEndRound_eq hend hpos (Nat.le_refl _), ← List.getLast?_eq_getElem?, if_pos hlast]

theorem macroEndRound_cases (hpos : 1 ≤ a) (ha : a ≤ s.length) :
    (macroEndRound s a = .ok (.done (logicalEnd s a)) ∧ ¬OpenEnded s a) ∨
    (∃ b, a < b ∧ b ≤ s.length ∧ logicalEnd s a = logicalEnd s b ∧
      Leads (macroEndRound s) a b) ∨
    OpenEnded s a ∧ Leads (macroEndRound s) a (s.length + 1 : Nat) := by
  obtain ⟨hle, hlen, hbefore, hbreak⟩ := lineEnd_first ha
  have hline : logicalEnd s a = logicalEnd s (s.lineEnd a) := by
    apply logicalEnd_eq_of_not hle
    intro q hq hlt
    simp [endsLine, hbefore q hq hlt]
  have hround := macroEndRound_eq (s := s) rfl (Nat.le_trans hpos hle) hlen
  by_cases hlt : s.lineEnd a < s.length
  · have hends : endsLine s (s.lineEnd a) = (s[s.lineEnd a - 1]? != some '\\') := by
      rw [endsLine, hbreak hlt, beq_self_eq_true, Bool.true_and]
    by_cases hslash : s[s.lineEnd a - 1]? = some '\\'
    · refine .inr (.inl ⟨s.lineEnd a + 1, by omega, hlt, ?_, ?_⟩)
      · rw [hline]
        apply logicalEnd_eq_of_not (Nat.le_succ _)
        intro q hq hqlt
        obtain rfl : q = s.lineEnd a := by omega
        simp [hends, hslash]
      · rw [Leads, hround, if_pos hslash]
    · have hfound : logicalEnd s a = s.lineEnd a := by
        rw [hline]
        exact logicalEnd_of_endsLine (by simp [hends, hslash])
      refine .inl ⟨?_, ?_⟩
      · rw [hround, if_neg hslash, hfound]
      · rw [OpenEnded, hfound]
        exact fun h => absurd h.1 (Nat.ne_of_lt hlt)
  · have hend : s.lineEnd a = s.length := by omega
    rw [hend, ← List.getLast?_eq_getElem?] at hround
    rw [hend, logicalEnd_length] at hline
    by_cases hlast : s.getLast? = some '\\'
    · refine .inr (.inr ⟨⟨hline, hlast⟩, ?_⟩)
      rw [Leads, hround, if_pos hlast]
    · refine .inl ⟨?_, fun h => hlast h.2⟩
      rw [hround, if_neg hlast, hline]

theorem macroEnd_endless (hpos : 1 ≤ a) (ha : a ≤ s.length) (hopen : OpenEnded s a) (n : Nat) :
    rounds (macroEndRound s) n a = .error .endless := by
  -- the search goes from line to line of the text, and at last stays beyond its end
  refine rounds_endless (fun i : Int => i = (s.length + 1 : Nat) ∨
    ∃ a : Nat, i = a ∧ 1 ≤ a ∧ a ≤ s.length ∧ OpenEnded s a) ?_ n a
      (.inr ⟨a, rfl, hpos, ha, hopen⟩)
  rintro i (rfl | ⟨a, rfl, hpos, ha, hopen⟩)
  · exact ⟨_, leads_beyond_end hopen.2, .inl rfl⟩
  · rcases macroEndRound_cases hpos ha with ⟨-, hends⟩ | ⟨b, hab, hb, hsame, hleads⟩ | ⟨-, hleads⟩
    · exact absurd hopen hends
    · exact ⟨b, hleads, .inr ⟨b, rfl, by omega, hb, hsame ▸ hopen.1, hopen.2⟩⟩
    · exact ⟨_, hleads, .inl rfl⟩

theorem macroEnd_eq (hpos : 1 ≤ a) (ha : a ≤ s.length) (hends : ¬OpenEnded s a) :
    macroEnd s a = .ok (logicalEnd s a) := by
  have hrun : ∃ e, macroEnd s a = .ok e ∧ e = logicalEnd s a := by
    rw [macroEnd]
    refine rounds_of_smaller_in (P := fun _ e => e = (logicalEnd s a : Int))
      (fun i : Int => ∃ b : Nat, i = b ∧ 1 ≤ b ∧ b ≤ s.length ∧ logicalEnd s b = logicalEnd s a)
      (fun i : Int => s.length - i.toNat) ?_ (s.length + 2) a ⟨a, rfl, hpos, ha, rfl⟩ (by omega)
    rintro i ⟨b, rfl, hpos, hb, hsame⟩
    rw [OpenEnded, ← hsame] at hends
    rcases macroEndRound_cases hpos hb with ⟨hdone, -⟩ | ⟨d, hbd, hd, hnext, hleads⟩ | ⟨h, -⟩
    · exact .inl ⟨_, hdone, by rw [hsame]⟩
    · refine .inr ⟨d, hleads, ⟨d, rfl, by omega, hd, hnext ▸ hsame⟩, ?_, fun _ h => h⟩
      simp only [Int.toNat_natCast]
      omega
    · exact absurd h hends
  obtain ⟨e, he, rfl⟩ := hrun
  exact he

theorem define_eq (hs : s.drop pos = "#define".toList ++ (u ++ d :: r))
    (hu : ∀ b ∈ u, isBlank b = true) (hd : isWord d = true) (c : Context) :
    ∃ n, Shape.macroName.matchAt s (pos + 7 + u.length : Nat) = some n ∧
      define s pos c = ((macroEnd s (pos + 7 : Nat)).map fun stop => some ⟨⟨pos, stop⟩,
        (macroRule? (n.text s)).toList.map fun rule => ⟨c.line, rule, some (n.text s), none⟩⟩,
        c) := by
  have hm : Shape.define.matchAt s pos = some ⟨pos, pos + 7, []⟩ :=
    matchAt_of_walk (y := ⟨pos + 7, _, []⟩) (place_le_of_drop (u := []) hs) (walk_lit hs)
  have hrest : s.drop (pos + 7) = u ++ d :: r := drop_of_drop_append hs
  have hnext : s.nextInk (pos + 7 : Nat) = .ok (pos + 7 + u.length : Nat) :=
    nextInk_of_drop hrest hu (not_isBlank_of_isWord hd)
  have hname : s.drop (pos + 7 + u.length) = [d] ++ r := drop_of_drop_append hrest
  have hreads : Shape.macroName.Reads [d] := by
    refine ⟨[d], [], rfl, ⟨?_, le_rfl⟩, Reads.opt_none⟩
    intro b hb
    rw [List.mem_singleton.mp hb]
    exact hd
  obtain ⟨n, hn, -⟩ := exists_matchAt (place_le_of_drop (u := []) hname) hreads hname
  have hfound : (((pos + 7 + u.length : Nat) : Int) == -1) = false := beq_false_of_ne (by omega)
  refine ⟨n, hn, ?_⟩
  simp only [define, hm, hnext, Lint.lift_ok_bind, hfound, Bool.false_eq_true, if_false, hn]
  cases macroEnd s (pos + 7 : Nat) with
  | error e => rfl
  | ok e => rfl

theorem define_ends_with_line (s : Text) (pos : Nat) (c : Context) (u r : Text) (d : Char)
    (hs : s.drop pos = "#define".toList ++ (u ++ d :: r)) (hu : u.all isBlank = true)
    (hd : isWord d = true) :
    (¬OpenEnded s (pos + 7) → ∃ reports,
      define s pos c = (.ok (some ⟨⟨pos, logicalEnd s (pos + 7)⟩, reports⟩), c)) ∧
    (OpenEnded s (pos + 7) → define s pos c = (.error .endless, c) ∧
      ∀ n, rounds (macroEndRound s) n (pos + 7 : Nat) = .error .endless) := by
  obtain ⟨n, -, hdefine⟩ := define_eq hs (List.all_eq_true.mp hu) hd c
  have hpos : 1 ≤ pos + 7 := by omega
  have hlen : pos + 7 ≤ s.length := place_le_of_drop (drop_of_drop_append hs)
  constructor
  · intro hends
    rw [hdefine, macroEnd_eq hpos hlen hends]
    exact ⟨_, rfl⟩
  · intro hopen
    have hendless := macroEnd_endless hpos hlen hopen
    refine ⟨?_, hendless⟩
    rw [hdefine, macroEnd, hendless]
    rfl

theorem define_ends_with_second_line :
    let s := "#define A \\\n  b\nc".toList
    s.drop 0 = "#define".toList ++ ([' '] ++ 'A' :: " \\\n  b\nc".toList) ∧
      ∃ reports, define s 0 {} = (.ok (some ⟨⟨0, 15⟩, reports⟩), {}) := by
  intro s
  have hs : s.drop 0 = "#define".toList ++ ([' '] ++ 'A' :: " \\\n  b\nc".toList) := by decide
  have hstop : logicalEnd s 7 = 15 := by decide
  have hends := (define_ends_with_line s 0 {} _ _ _ hs (by decide) (by decide)).1
  rw [Nat.zero_add, hstop] at hends
  refine ⟨hs, hends ?_⟩
  rintro ⟨hend, -⟩
  rw [hstop] at hend
  exact absurd hend (by decide)

theorem define_never_ends :
    let s := "#define A \\".toList
    OpenEnded s 7 ∧ logicalEnd s 7 = 11 ∧ define s 0 {} = (.error .endless, {}) ∧
      ∀ n, rounds (macroEndRound s) n (7 : Nat) = .error .endless := by
  intro s
  have hs : s.drop 0 = "#define".toList ++ ([' '] ++ 'A' :: " \\".toList) := by decide
  have hend : logicalEnd s 7 = 11 := by decide
  have hopen : OpenEnded s 7 := ⟨hend, by decide⟩
  have hendless := macroEnd_endless (s := s) (a := 7) (by decide) (by decide) hopen
  obtain ⟨n, -, hdefine⟩ := define_eq hs (List.all_eq_true.mp (by decide)) (by decide) {}
  refine ⟨hopen, hend, hdefine.trans ?_, hendless⟩
  rw [Nat.zero_add, macroEnd, hendless]
  rfl

end CodeAudit.Declaration

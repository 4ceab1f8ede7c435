import CodeAudit.Proofs.Body.Statements
import CodeAudit.Proofs.Runs

namespace CodeAudit.Body

variable {s : Text} {q b : Nat} {i : Int} {r : Report} {c : Context}

/-- The check of the body with its brace at `b`, begun in the given line, comes to a statement at `k`
and gives the report on it. Its line is the one begun in and the line breaks after the brace. -/
def Gives (s : Text) (b : Nat) (line : Int) (k : Nat) (r : Report) : Prop :=
  Tells s k (line + s.lineBreaks b k) r ∧ ∃ (c : Context) (stop : Int), c.line = line ∧
    Bracket.brace.partner s b = .ok stop ∧
    Lint.Gives s forms (round s b stop line) (·.pos + 1) (⟨b, []⟩, c) k r.line r

def Counted (s : Text) (b : Nat) (line : Int) (r : Report) : Prop :=
  (∃ k, Gives s b line k r) ∨ r.Exact s

/-- The report is on a statement at or before the brace, to which the scan goes back, or the check of
the body is not begun in the line of the brace. -/
def Displaced (s : Text) (b : Nat) (line : Int) (r : Report) : Prop :=
  ∃ k, Gives s b line k r ∧ (k ≤ b ∨ line ≠ s.lineOf b)

theorem first_tells (hq : q ≤ s.length) :
    Lint.wp (Form.first forms s q) (fun found _ => ∀ x, found = some x →
      -1 ≤ x.stop ∧ ∀ r ∈ x.reports, Tells s q c.line r ∨ r.Exact s) (fun _ => True) c := by
  refine Lint.wp_first (fun c' => c' = c) forms (by simp) ?_ c rfl
  rintro f hf _ rfl
  refine Lint.wp_mono (forms_tell hq f hf _) ?_
  rintro found c' ⟨rfl, hfound⟩
  cases found with
  | none => rfl
  | some x =>
    simp only
    split
    · trivial
    · rintro y hy
      obtain rfl := Option.some.inj hy
      exact hfound x rfl

theorem round_finds {n : Nat} {line : Int} {x : State} (hn : s[n]? = some '}') (hx : -1 ≤ x.pos) :
    Lint.wp (round s b n line x) (fun z _ => match z with
      | .done reports => reports = x.reports
      | .again y => -1 ≤ y.pos ∧ (y.reports = x.reports ∨ ∃ (k : Nat) (found : Finding),
          s.nextInk (x.pos + 1) = .ok k ∧
          (Form.first forms s k { c with line := line + s.lineBreaks b k }).1 = .ok (some found) ∧
          y.reports = x.reports ++ found.reports ∧
          ∀ r ∈ found.reports, Tells s k (line + s.lineBreaks b k) r ∨ r.Exact s))
      (fun _ => True) c := by
  unfold round
  split
  · obtain ⟨a, ha⟩ : ∃ a : Nat, x.pos + 1 = a := ⟨(x.pos + 1).toNat, by omega⟩
    obtain ⟨k, hnext, -, hkn⟩ := Text.nextInk_before (show a ≤ n by omega) hn (by decide)
    have hlen := (List.getElem?_eq_some_iff.mp hn).1
    have hk : k ≤ s.length := Nat.le_of_lt (Nat.lt_of_le_of_lt hkn hlen)
    simp only [ha, hnext, Lint.wp_bind, Lint.wp_lift_ensures, Lint.wp_setLine]
    intro j hj
    obtain rfl : (k : Int) = j := Except.ok.inj hj
    refine Lint.wp_mono (Lint.wp_run (first_tells hk)) ?_
    rintro found c' ⟨hrun, hfound⟩
    cases found with
    | some y =>
      obtain ⟨hstop, hfound⟩ := hfound y rfl
      exact ⟨show -1 ≤ y.stop + 1 by omega,
        .inr ⟨k, y, rfl, congrArg Prod.fst hrun, rfl, hfound⟩⟩
    | none =>
      simp only
      split
      · rfl
      · have hstop := Text.neg_one_le_find s ';' k
        exact ⟨show -1 ≤ s.find ';' k + 1 by omega, .inl rfl⟩
  · rfl

theorem round_of_unclosed (s : Text) (b : Nat) (line : Int) :
    round s b (-1) line ⟨b, []⟩ = pure (.done []) := by
  rw [round, if_neg (show ¬(b : Int) < -1 by omega)]

theorem rounds_counted {n : Nat} (hpartner : Bracket.brace.partner s b = .ok n)
    (hn : s[n]? = some '}') (states : Nat) :
    Lint.wp (rounds (round s b n c.line) states ⟨b, []⟩)
      (fun reports _ => ∀ r ∈ reports, Counted s b c.line r) (fun _ => True) c := by
  refine Lint.wp_rounds_reached
    (fun x : State => -1 ≤ x.pos ∧ ∀ r ∈ x.reports, Counted s b c.line r) ⟨?_, by simp⟩ ?_ ?_ states
  · exact show -1 ≤ (b : Int) by omega
  · rintro x y hreached ⟨hpos, hreports⟩ hxy
    obtain ⟨hy, hsame | ⟨k, found, hnext, hfirst, hadded, htells⟩⟩ :=
      Lint.wp_ok (round_finds hn hpos) hxy
    · exact ⟨hy, hsame ▸ hreports⟩
    · refine ⟨hy, ?_⟩
      rw [hadded]
      intro r hr
      rcases List.mem_append.mp hr with hold | hnew
      · exact hreports r hold
      · refine (htells r hnew).imp (fun htold => ⟨k, htold, c, n, rfl, hpartner, ?_⟩) id
        rw [htold.2.2]
        exact ⟨x, y, found, hreached, hxy, hnext, hfirst, hnew⟩
  · rintro x reports c' ⟨hpos, hreports⟩ hrun
    rw [Lint.wp_ok (round_finds hn hpos) hrun]
    exact hreports

theorem check_counted (b : Nat) :
    Lint.wp (check s b) (fun x _ => s[b]? = some '{' ∧ s.BeforeTail x.stop ∧
      ∀ r ∈ x.reports, Counted s b c.line r) (fun _ => True) c := by
  simp only [check, Lint.wp_bind, Lint.wp_lift_ensures]
  refine Scan.ensures_mono (Text.charAt_natCast s b) ?_
  intro e he
  split
  · simp only [Lint.wp_bind, Lint.wp_throw]
  · rename_i hbrace
    obtain rfl : e = '{' := by simpa using hbrace
    simp only [Lint.wp_bind, Lint.wp_lift_ensures, Lint.wp_currentLine, Lint.wp_pure]
    intro stop hpartner
    rcases Bracket.partner_closing (b := .brace) he stop hpartner with rfl | ⟨n, rfl, hn⟩
    · simp only [rounds, round_of_unclosed, pure_bind, Lint.wp_pure]
      exact ⟨he, Text.beforeTail_neg_one s, by simp⟩
    · refine Lint.wp_mono (rounds_counted hpartner hn (s.length + 3)) ?_
      intro reports _ hreports
      exact ⟨he, Text.beforeTail_of_ink (Int.le_refl _) hn (by decide), hreports⟩

theorem Counted.exact_or_displaced {line : Int} (h : Counted s b line r) :
    r.Exact s ∨ Displaced s b line r := by
  rcases h with ⟨k, hk⟩ | h
  · by_cases hplace : k ≤ b ∨ line ≠ s.lineOf b
    · exact .inr ⟨k, hk, hplace⟩
    · obtain ⟨hbk, hline⟩ := not_or.mp hplace
      obtain ⟨-, hquotes, htold⟩ := hk.1
      have hlines := Text.lineOf_add_lineBreaks (s := s) (Nat.le_of_lt (Nat.lt_of_not_le hbk))
      rw [not_not.mp hline] at htold
      exact .inl (hquotes.exact (by omega))
  · exact .inl h

theorem check_neg_one (hi : s.bound i < s.length) (hb : '{' ∉ s.drop (s.bound i))
    {Q : Finding → Context → Prop} : Lint.wp (check s (-1)) Q (fun _ => True) c := by
  simp only [check, Lint.wp_bind, Lint.wp_lift_ensures]
  intro e he
  -- position -1 is that of the last character, and it stands where no brace was found
  have hlast : s.charAt? (-1) = some e := by
    rw [Text.charAt] at he
    split at he
    · rename_i d hd
      rw [hd, Except.ok.inj he]
    · cases he
  have hne : e ≠ '{' := by
    rintro rfl
    apply hb
    have h : s[s.length - 1]? = some '{' := by
      rw [← hlast, Text.charAt?, if_neg (by omega), if_pos (by omega)]
      congr 1
      omega
    apply List.mem_of_getElem? (i := s.length - 1 - s.bound i)
    rw [List.getElem?_drop, ← h]
    congr 1
    omega
  have hneq : (e != '{') = true := by simpa using hne
  simp only [hneq, if_true, Lint.wp_bind, Lint.wp_throw]

end CodeAudit.Body

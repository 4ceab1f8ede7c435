import CodeAudit.Proofs.Pattern.Literal
import CodeAudit.Proofs.Runs
import CodeAudit.Proofs.Stylesheet.Regions

/-!
Whether the check of a style sheet ends. Each round begins after the one before it, unless there is
no block after a selector and the text ends with a blank. The scan then starts again from the
beginning of the text and comes back to this selector, so that it never ends.
-/

namespace CodeAudit.Stylesheet

variable {s : Text} {a b q r : Nat} {name : Pattern} {told : List Report}

/-- From `p` on, the next selector has no block after it, and the text ends with a blank. -/
def Stuck (s : Text) (p : Int) : Prop :=
  ∃ q : Nat, skipRegions s "/*".toList p = .ok q ∧ '{' ∉ s.drop q ∧
    s.getLast?.any Text.isBlank = true

def Follows (s : Text) (a r : Nat) : Prop :=
  ∃ q : Nat, skipRegions s "/*".toList a = .ok q ∧ skipRegions s ['{'] (s.find '{' q) = .ok r

theorem skip_comments (s : Text) (a : Nat) :
    ∃ j, skipRegions s "/*".toList a = .ok j ∧ Skipped s "/*".toList a j :=
  skipRegions_natCast (show closingMark? "/*".toList = some "\\*/".toList from rfl) (by decide) a

theorem skip_blocks (s : Text) (a : Nat) :
    ∃ j, skipRegions s ['{'] a = .ok j ∧ Skipped s ['{'] a j :=
  skipRegions_natCast (show closingMark? ['{'] = some ['}'] from rfl) (by decide) a

theorem ink_of_skip (h : skipRegions s "/*".toList a = .ok q) : a ≤ q ∧ s.Ink q := by
  obtain ⟨j, hj, hskipped⟩ := skip_comments s a
  obtain rfl := Except.ok.inj (hj.symm.trans h)
  obtain hq | ⟨p, hp, hle, hink, -⟩ := hskipped
  · omega
  · obtain rfl := Int.ofNat.inj hp
    exact ⟨hle, hink⟩

theorem nextInk_neg_one_of_blank (h : s.getLast?.any Text.isBlank = true) :
    s.nextInk (-1) = s.nextInk (0 : Nat) := by
  obtain ⟨b, hb, hblank⟩ := (Option.any_eq_true _ _).mp h
  rw [Text.nextInk_neg_one hb, if_pos hblank]
  rfl

theorem skipRegions_neg_one (hq : s.Ink q) :
    skipRegions s ['{'] (-1) = .ok (-1) ∨ s.getLast?.any Text.isBlank = true := by
  have hne : s ≠ [] := List.length_pos_iff.mp (Nat.zero_lt_of_lt hq.lt_length)
  have hlast := List.getLast?_eq_some_getLast hne
  by_cases hblank : Text.isBlank (s.getLast hne) = true
  · rw [hlast]
    exact .inr hblank
  · have hnext := Text.nextInk_neg_one hlast
    rw [if_neg hblank] at hnext
    exact .inl (skipRegions_of_blank hnext)

theorem skip_after_selector (hq : s.Ink q) :
    ∃ j, skipRegions s ['{'] (s.find '{' q) = .ok j ∧ (j = -1 ∨ ∃ r : Nat, j = r ∧ s.Ink r ∧
      (q < r ∨ '{' ∉ s.drop q ∧ s.getLast?.any Text.isBlank = true)) := by
  rcases Text.find_cases s '{' q with ⟨hfind, hno⟩ | ⟨n, hfind, hle, hn⟩
  · rw [Text.bound_natCast] at hno
    rw [hfind]
    rcases skipRegions_neg_one hq with hskip | hlast
    · exact ⟨-1, hskip, .inl rfl⟩
    · obtain ⟨j, hj, hskipped⟩ := skip_blocks s 0
      rw [← skipRegions_congr (nextInk_neg_one_of_blank hlast)] at hj
      refine ⟨j, hj, hskipped.imp id ?_⟩
      rintro ⟨r, rfl, -, hink, -⟩
      exact ⟨r, rfl, hink, .inr ⟨hno, hlast⟩⟩
  · rw [Text.bound_natCast] at hle
    rw [hfind]
    obtain ⟨j, hj, hskipped⟩ := skip_blocks s n
    refine ⟨j, hj, hskipped.imp id ?_⟩
    rintro ⟨r, rfl, hnr, hink, hmark⟩
    have hne : r ≠ n := by
      rintro rfl
      obtain ⟨hlt, hget⟩ := List.getElem?_eq_some_iff.mp hn
      rw [List.drop_eq_getElem_cons hlt, hget] at hmark
      exact hmark ⟨_, rfl⟩
    exact ⟨r, rfl, hink, .inl (by omega)⟩

theorem length_selectorReports_le (name : Pattern) (s : Text) (q : Nat) :
    (selectorReports name s q).length ≤ 1 := by
  rw [selectorReports]
  split
  · exact Nat.zero_le _
  · exact Nat.le_refl _

theorem round_cases (name : Pattern) (s : Text) (a : Nat) (told : List Report) :
    (∃ reports, round name s ⟨a, told⟩ = .ok (.done reports) ∧
      (reports = told ∨ a < s.length ∧ reports.length ≤ told.length + 1)) ∨
    ∃ (r : Nat) (reports : List Report), round name s ⟨a, told⟩ = .ok (.again ⟨r, reports⟩) ∧
      r < s.length ∧ reports.length ≤ told.length + 1 ∧ Follows s a r ∧ (a < r ∨ Stuck s a) := by
  obtain ⟨j, hskip, rfl | ⟨q, rfl, haq, hink, -⟩⟩ := skip_comments s a
  · exact .inl ⟨told, round_of_end hskip, .inl rfl⟩
  · have hq := hink.lt_length
    have hlen : (told ++ selectorReports name s q).length ≤ told.length + 1 := by
      rw [List.length_append]
      exact Nat.add_le_add_left (length_selectorReports_le name s q) _
    obtain ⟨j, hstop, rfl | ⟨r, rfl, hr, hback⟩⟩ := skip_after_selector hink
    · have hround : round name s ⟨a, told⟩ = _ := round_of_selector hskip hstop (by omega)
      exact .inl ⟨_, hround, .inr ⟨by omega, hlen⟩⟩
    · have hlt := hr.lt_length
      have hround : round name s ⟨a, told⟩ = _ := round_of_selector hskip hstop (by omega)
      rw [if_neg (by omega)] at hround
      refine .inr ⟨r, _, hround, hlt, hlen, ⟨q, hskip, hstop⟩, hback.imp ?_ ?_⟩
      · intro h
        omega
      · rintro ⟨hno, hlast⟩
        exact ⟨q, hskip, hno, hlast⟩

theorem follows_congr (h : s.nextInk a = s.nextInk b) : Follows s a r ↔ Follows s b r := by
  rw [Follows, Follows, skipRegions_congr h]

theorem stuck_congr (h : s.nextInk a = s.nextInk b) : Stuck s a ↔ Stuck s b := by
  rw [Stuck, Stuck, skipRegions_congr h]

theorem Stuck.exists_first (h : Stuck s a) : ∃ f : Nat, s.nextInk (0 : Nat) = .ok f ∧ s.Ink f := by
  obtain ⟨q, hskip, -⟩ := h
  obtain ⟨-, b, hb, hink⟩ := ink_of_skip hskip
  rcases Text.nextInk_natCast s 0 with ⟨-, hall⟩ | ⟨f, hf, -, hink⟩
  · rw [hall b (List.mem_of_getElem? hb)] at hink
    cases hink
  · exact ⟨f, hf, hink⟩

theorem Stuck.follows (h : Stuck s b) (hr : skipRegions s ['{'] (0 : Nat) = .ok r) :
    Follows s b r := by
  obtain ⟨q, hskip, hno, hlast⟩ := h
  refine ⟨q, hskip, ?_⟩
  rw [← hr, ← skipRegions_congr (nextInk_neg_one_of_blank hlast)]
  rcases Text.find_cases s '{' q with ⟨hfind, -⟩ | ⟨n, -, hle, hn⟩
  · rw [hfind]
  · rw [Text.bound_natCast] at hle
    have hmem : '{' ∈ s.drop q := by
      apply List.mem_of_getElem? (i := n - q)
      rw [List.getElem?_drop, Nat.add_sub_cancel' (by omega), hn]
    exact absurd hmem hno

def Doomed (s : Text) (a : Nat) : Prop :=
  ∃ b, Relation.ReflTransGen (Follows s) 0 b ∧ Relation.ReflTransGen (Follows s) a b ∧ Stuck s b

theorem skip_of_follows_zero {f : Nat} (hf : s.nextInk (0 : Nat) = .ok f) (hink : s.Ink f)
    (hopen : ['{'] <+: s.drop f) :
    skipRegions s "/*".toList (0 : Nat) = .ok f ∧ s.find '{' f = f := by
  obtain ⟨w, hw⟩ := hopen
  constructor
  · rw [skipRegions_congr (hf.trans hink.nextInk_eq.symm)]
    apply skipRegions_of_ink hink
    rw [← hw]
    rintro ⟨v, hv⟩
    cases hv
  · rw [← Text.findText_singleton (Nat.le_of_lt hink.lt_length)]
    exact Text.findText_of_prefix (Nat.le_of_lt hink.lt_length) ⟨w, hw⟩

theorem Stuck.restart (h0 : Relation.ReflTransGen (Follows s) 0 b) (hb : Stuck s b) :
    ∃ r : Nat, skipRegions s ['{'] (0 : Nat) = .ok r ∧ Doomed s r := by
  obtain ⟨f, hf, hink⟩ := hb.exists_first
  have hnext := hf.trans hink.nextInk_eq.symm
  by_cases hopen : ['{'] <+: s.drop f
  · obtain ⟨hskip, hfind⟩ := skip_of_follows_zero hf hink hopen
    rcases h0.cases_head with rfl | ⟨c, ⟨q, hq, hstop⟩, hcb⟩
    · obtain ⟨q, hq, hno, -⟩ := hb
      obtain rfl : f = q := Int.ofNat.inj (Except.ok.inj (hskip.symm.trans hq))
      exact absurd (hopen.subset List.mem_cons_self) hno
    · obtain rfl : f = q := Int.ofNat.inj (Except.ok.inj (hskip.symm.trans hq))
      rw [hfind, ← skipRegions_congr hnext] at hstop
      exact ⟨c, hstop, b, h0, hcb, hb⟩
  · have hstop : skipRegions s ['{'] (0 : Nat) = .ok f := by
      rw [skipRegions_congr hnext]
      exact skipRegions_of_ink hink hopen
    refine ⟨f, hstop, ?_⟩
    rcases h0.cases_head with rfl | ⟨c, hc, hcb⟩
    · exact ⟨f, .single (hb.follows hstop), .refl, (stuck_congr hnext).mp hb⟩
    · exact ⟨b, h0, .head ((follows_congr hnext).mp hc) hcb, hb⟩

theorem Doomed.follows (h : Doomed s a) : ∃ r, Follows s a r ∧ Doomed s r := by
  obtain ⟨b, h0, hab, hb⟩ := h
  rcases hab.cases_head with rfl | ⟨c, hc, hcb⟩
  · obtain ⟨r, hr, hdoomed⟩ := hb.restart h0
    exact ⟨r, hb.follows hr, hdoomed⟩
  · exact ⟨c, hc, b, h0, hcb, hb⟩

theorem round_of_follows (name : Pattern) (told : List Report) (h : Follows s a r) :
    ∃ reports, round name s ⟨a, told⟩ = .ok (.again ⟨r, reports⟩) := by
  obtain ⟨q, hskip, hstop⟩ := h
  obtain ⟨j, hj, rfl | ⟨p, rfl, hp, -⟩⟩ := skip_after_selector (ink_of_skip hskip).2
  · cases hj.symm.trans hstop
  · obtain rfl : p = r := Int.ofNat.inj (Except.ok.inj (hj.symm.trans hstop))
    have hlt := hp.lt_length
    have hround : round name s ⟨a, told⟩ = _ := round_of_selector hskip hstop (by omega)
    rw [if_neg (by omega)] at hround
    exact ⟨_, hround⟩

/-- A round of the check begins before a selector that is stuck. -/
def Trapped (name : Pattern) (s : Text) : Prop :=
  ∃ x, Relation.ReflTransGen (Leads (round name s)) ⟨0, []⟩ x ∧ Stuck s x.pos

theorem leads_cases {x y : State} (ha : x.pos = a) (h : Leads (round name s) x y) :
    ∃ r : Nat, y.pos = r ∧ r < s.length ∧ y.reports.length ≤ x.reports.length + 1 ∧
      Follows s a r ∧ (a < r ∨ Stuck s a) := by
  obtain ⟨pos, told⟩ := x
  subst ha
  rcases round_cases name s a told with ⟨_, hround, -⟩ | ⟨r, reports, hround, hr, hlen, hstep⟩
  · cases hround.symm.trans h
  · cases hround.symm.trans h
    exact ⟨r, rfl, hr, hlen, hstep⟩

theorem reached {x : State} (h : Relation.ReflTransGen (Leads (round name s)) ⟨0, []⟩ x) :
    ∃ a : Nat, x.pos = a ∧ a ≤ s.length - 1 ∧ Relation.ReflTransGen (Follows s) 0 a := by
  induction h with
  | refl => exact ⟨0, rfl, Nat.zero_le _, .refl⟩
  | tail _ hstep ih =>
    obtain ⟨a, ha, -, hpath⟩ := ih
    obtain ⟨r, hr, hlt, -, hfollows, -⟩ := leads_cases ha hstep
    exact ⟨r, hr, by omega, hpath.tail hfollows⟩

theorem rounds_of_trapped (h : Trapped name s) (states : Nat) :
    rounds (round name s) states ⟨0, []⟩ = .error .endless := by
  obtain ⟨x, hx, hstuck⟩ := h
  obtain ⟨b, hb, -, hpath⟩ := reached hx
  rw [hb] at hstuck
  apply rounds_endless fun x : State => ∃ a : Nat, x.pos = a ∧ Doomed s a
  · rintro ⟨_, told⟩ ⟨a, rfl, ha⟩
    obtain ⟨r, hfollows, hr⟩ := ha.follows
    obtain ⟨reports, hround⟩ := round_of_follows name told hfollows
    exact ⟨⟨r, reports⟩, hround, r, rfl, hr⟩
  · exact ⟨0, rfl, b, hpath, hpath, hstuck⟩

def Room (s : Text) (x : State) (reports : List Report) : Prop :=
  reports.length + x.pos.toNat ≤ x.reports.length + s.length

theorem round_of_not_trapped (h : ¬Trapped name s) {x : State}
    (hx : Relation.ReflTransGen (Leads (round name s)) ⟨0, []⟩ x) :
    (∃ reports, round name s x = .ok (.done reports) ∧ Room s x reports) ∨
      ∃ y, round name s x = .ok (.again y) ∧
        Relation.ReflTransGen (Leads (round name s)) ⟨0, []⟩ y ∧
        s.length - y.pos.toNat < s.length - x.pos.toNat ∧
        ∀ reports, Room s y reports → Room s x reports := by
  obtain ⟨pos, told⟩ := x
  obtain ⟨a, rfl, ha, -⟩ := reached hx
  rcases round_cases name s a told with ⟨reports, hround, hlen⟩ |
    ⟨r, reports, hround, hr, hlen, -, hlt | hstuck⟩
  · refine .inl ⟨reports, hround, ?_⟩
    rw [Room]
    rcases hlen with rfl | ⟨hlt, hlen⟩ <;> dsimp only <;> omega
  · refine .inr ⟨⟨r, reports⟩, hround, hx.tail hround, ?_, ?_⟩
    · dsimp only
      omega
    · intro all hall
      rw [Room] at hall ⊢
      dsimp only at hall ⊢
      omega
  · exact absurd ⟨_, hx, hstuck⟩ h

theorem rounds_of_not_trapped (h : ¬Trapped name s) :
    ∃ reports, rounds (round name s) (s.length + 3) ⟨0, []⟩ = .ok reports ∧
      reports.length ≤ s.length := by
  obtain ⟨reports, hend, hroom⟩ := rounds_of_smaller_in
    (Relation.ReflTransGen (Leads (round name s)) ⟨0, []⟩) (fun x => s.length - x.pos.toNat)
    (fun _ => round_of_not_trapped h) (s.length + 3) ⟨0, []⟩ .refl (by omega)
  rw [Room, List.length_nil] at hroom
  exact ⟨reports, hend, by omega⟩

theorem increasing_of_not_trapped (h : ¬Trapped name s) {xs : List State}
    (hxs : IsRun (Leads (round name s)) ⟨0, []⟩ xs) :
    (xs.map (·.pos)).Pairwise (· < ·) ∧ xs.length ≤ max 1 s.length := by
  have hreached : ∀ x ∈ xs, Relation.ReflTransGen (Leads (round name s)) ⟨0, []⟩ x :=
    hxs.forall_mem .refl fun _ _ hxy hx => hx.tail hxy
  have hincreasing : (xs.map (·.pos)).Pairwise (· < ·) := by
    apply hxs.increasing
    intro x hx y hxy
    obtain ⟨a, ha, -⟩ := reached (hreached x hx)
    obtain ⟨r, hr, -, -, -, hlt | hstuck⟩ := leads_cases ha hxy
    · omega
    · exact absurd ⟨x, hreached x hx, ha ▸ hstuck⟩ h
  refine ⟨hincreasing, ?_⟩
  have hbound := length_le_of_increasing (a := 0) (b := (max 1 s.length : Nat)) hincreasing
  rw [List.length_map] at hbound
  apply (hbound ?_).trans
  · omega
  · intro p hp
    obtain ⟨x, hx, rfl⟩ := List.mem_map.mp hp
    obtain ⟨a, ha, hle, -⟩ := reached (hreached x hx)
    omega

theorem check_ends_or_stuck (s file : Text) (hfile : (stem file).all Text.isWord = true) :
    ∃ name, Pattern.read (stem file) = .ok name ∧
      ((¬Trapped name s ∧
          (∀ xs, IsRun (Leads (round name s)) ⟨0, []⟩ xs →
            (xs.map (·.pos)).Pairwise (· < ·) ∧ xs.length ≤ max 1 s.length) ∧
          ∃ reports, check s file = .ok reports ∧ reports.length ≤ s.length) ∨
        (Trapped name s ∧ ∀ states, rounds (round name s) states ⟨0, []⟩ = .error .endless)) := by
  obtain ⟨name, hread, -⟩ := Pattern.exists_read_of_isWord (List.all_eq_true.mp hfile)
  refine ⟨name, hread, ?_⟩
  by_cases h : Trapped name s
  · exact .inr ⟨h, rounds_of_trapped h⟩
  · refine .inl ⟨h, fun xs => increasing_of_not_trapped h, ?_⟩
    rw [check, hread]
    exact rounds_of_not_trapped h

theorem check_ends_at_selector :
    (stem "citBox.qss".toList).all Text.isWord = true ∧
      ∃ reports, check "citBox\x7b\x7d a\n\x7b \x7d b".toList "citBox.qss".toList = .ok reports ∧
        reports.length ≤ 16 := by
  refine ⟨by decide, ?_⟩
  obtain ⟨name, -, ⟨-, -, h⟩ | ⟨⟨x, -, q, -, -, hlast⟩, -⟩⟩ :=
    check_ends_or_stuck "citBox\x7b\x7d a\n\x7b \x7d b".toList "citBox.qss".toList (by decide)
  · exact h
  · exact absurd hlast (by decide)

theorem check_never_ends :
    (stem "a.qss".toList).all Text.isWord = true ∧
      check "a ".toList "a.qss".toList = .error .endless ∧
      ∃ name, Pattern.read (stem "a.qss".toList) = .ok name ∧
        ∀ states, rounds (round name "a ".toList) states ⟨0, []⟩ = .error .endless := by
  have hword : (stem "a.qss".toList).all Text.isWord = true := by decide
  obtain ⟨name, hread, -⟩ := Pattern.exists_read_of_isWord (List.all_eq_true.mp hword)
  have hstuck : Stuck "a ".toList 0 := by
    refine ⟨0, ?_, by decide, by decide⟩
    exact Scan.eq_ok_of_toOption (by decide)
  have hendless : ∀ states, rounds (round name "a ".toList) states ⟨0, []⟩ = .error .endless :=
    rounds_of_trapped ⟨_, .refl, hstuck⟩
  refine ⟨hword, ?_, name, hread, hendless⟩
  rw [check, hread]
  exact hendless _

end CodeAudit.Stylesheet

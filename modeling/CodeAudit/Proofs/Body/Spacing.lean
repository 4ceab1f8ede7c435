import CodeAudit.Proofs.Body.Locals
import CodeAudit.Proofs.Body.Passing

/-!
Declarations with and without a space between them. Each round begins one place after the character
that follows the last statement. With a space there, every declaration is read as it stands; with
nothing there, every declaration but the first loses its first character.
-/

namespace CodeAudit.Body

open Pattern Shape

abbrev Told := String × Option Text

def told (r : Report) : Told := (r.rule.message, r.context)

def nameTold (t n : Text) : List Told :=
  if "l_".toList <+: n then [] else [(Rule.localLead.message, some (t ++ ' ' :: n ++ [';']))]

namespace Declared

def told (x : Declared) : List Told := nameTold x.type x.name

/-- What is told of a declaration that is read from its second character on. Where nothing is left of
the type there is only a name to read. -/
def clippedTold (x : Declared) : List Told :=
  if x.type.tail = [] ∨ looksLed x.type.tail then [] else nameTold x.type.tail x.name

def reachesOn (x : Declared) : Bool := x.type.tail.isEmpty && x.name == "delete".toList

end Declared

/-- What is told of declarations that follow another one with nothing between them. The first of them
is passed over where the statement before it reaches on into it. -/
def clippedTold : (passed : Bool) → List Declared → List Told
  | _, [] => []
  | true, _ :: ds => clippedTold false ds
  | false, d :: ds => d.clippedTold ++ clippedTold d.reachesOn ds

def gluedTold : List Declared → List Told
  | [] => []
  | d :: ds => d.told ++ clippedTold false ds

def bodyText (gap : Text) (ds : List Declared) : Text :=
  '{' :: gap.intercalate (ds.map Declared.text) ++ ['}']

variable {s t n u v w gap : Text} {line : Int} {pos next k : Nat} {ts us : List Told}
  {ds : List Declared}

structure Quiet (s : Text) : Prop where
  unbroken : '\n' ∉ s
  no_angle : ∀ b ∈ s, b ∉ ['<', '>']

theorem Quiet.drop (h : Quiet s) (a : Nat) : ∀ b ∈ s.drop a, b ∉ ['<', '>'] :=
  fun b hb => h.no_angle b (List.mem_of_mem_drop hb)

def RoundTells (s : Text) (line : Int) (pos next : Nat) (ts : List Told) : Prop :=
  ∀ r c, ∃ reports c', reports.map told = ts ∧
    round s 0 (s.length - 1) line ⟨pos, r⟩ c = (.ok (.again ⟨next, r ++ reports⟩), c')

def RunTells (s : Text) (line : Int) (k pos : Nat) (ts : List Told) : Prop :=
  ∀ r c, ∃ reports, reports.map told = ts ∧
    (rounds (round s 0 (s.length - 1) line) k ⟨pos, r⟩ c).1 = .ok (r ++ reports)

theorem RoundTells.runTells (h : RoundTells s line pos next ts)
    (hnext : RunTells s line k next us) : RunTells s line (k + 1) pos (ts ++ us) := by
  intro r c
  obtain ⟨reports, c', hts, hround⟩ := h r c
  obtain ⟨rest, hus, hrun⟩ := hnext (r ++ reports) c'
  refine ⟨reports ++ rest, by rw [List.map_append, hts, hus], ?_⟩
  rw [rounds, Lint.bind_ok hround, hrun, List.append_assoc]

theorem runTells_of_end (hs : s.drop pos = ['}']) : RunTells s line (k + 1) pos [] := by
  intro r c
  have hend : ¬(pos : Int) < s.length - 1 := by
    have hlength := congrArg List.length hs
    rw [List.length_drop, List.length_singleton] at hlength
    omega
  refine ⟨[], rfl, ?_⟩
  rw [rounds, List.append_nil]
  simp only [round, hend, if_false]
  rfl

section Round

variable {b d : Char} {stop : Nat}

theorem round_at {f : Int → Option Finding} (hu : ∀ b ∈ u, Text.isBlank b = true)
    (hd : Text.isBlank d = false) (hs : s.drop pos = b :: (u ++ d :: v))
    (hfirst : ∀ c, Form.first forms s (pos + 1 + u.length : Nat) c = (.ok (f c.line), c))
    (r : List Report) (c : Context) :
    ∃ l c', round s 0 (s.length - 1) line ⟨pos, r⟩ c =
      (.ok (proceed s (pos + 1 + u.length : Nat) r (f l)), c') := by
  have hpos : (pos : Int) < s.length - 1 := by
    have hlength := congrArg List.length hs
    simp only [List.length_drop, List.length_cons, List.length_append] at hlength
    omega
  have hrest : s.drop (pos + 1) = u ++ d :: v := Text.drop_of_drop_append (u := [b]) hs
  exact ⟨_, _, round_of_first_at hu hd hpos hrest (hfirst _)⟩

theorem roundTells_of_found {g : Int → List Report} (hu : ∀ b ∈ u, Text.isBlank b = true)
    (hd : Text.isBlank d = false) (hs : s.drop pos = b :: (u ++ d :: v))
    (hfirst : ∀ c, Form.first forms s (pos + 1 + u.length : Nat) c =
      (.ok (some ⟨⟨(pos + 1 + u.length : Nat), stop⟩, g c.line⟩), c))
    (hg : ∀ line, (g line).map told = ts) : RoundTells s line pos (stop + 1) ts := by
  intro r c
  obtain ⟨l, c', hround⟩ := round_at (f := fun l => some ⟨⟨_, stop⟩, g l⟩) hu hd hs hfirst r c
  exact ⟨g l, c', hg l, hround⟩

theorem roundTells_of_none (hu : ∀ b ∈ u, Text.isBlank b = true) (hd : Text.isBlank d = false)
    (hs : s.drop pos = b :: (u ++ d :: v))
    (hfirst : ∀ c, Form.first forms s (pos + 1 + u.length : Nat) c = (.ok none, c))
    (hstop : s.find ';' (pos + 1 + u.length : Nat) = stop) :
    RoundTells s line pos (stop + 1) [] := by
  intro r c
  obtain ⟨l, c', hround⟩ := round_at (f := fun _ => none) hu hd hs hfirst r c
  have hfound : ((stop : Int) == -1) = false := beq_false_of_ne (by omega)
  refine ⟨[], c', rfl, hround.trans ?_⟩
  rw [proceed, hstop, hfound, List.append_nil]
  rfl

theorem roundTells_declared (hq : Quiet s) (ht : word.Reads t) (hn : n.isIdentifier = true)
    (hled : ¬looksLed t) (hs : s.drop pos = b :: (t ++ ' ' :: n ++ ';' :: v)) :
    RoundTells s line pos (pos + 1 + (t ++ ' ' :: n).length + 1) (nameTold t n) := by
  obtain ⟨d, w, rfl⟩ := List.exists_cons_of_length_pos ht.2
  have hink : Text.isBlank d = false := Text.not_isBlank_of_isWord (ht.1 d List.mem_cons_self)
  have hrest : s.drop (pos + 1) = d :: w ++ ' ' :: n ++ ';' :: v :=
    Text.drop_of_drop_append (u := [b]) hs
  apply roundTells_of_found (u := []) (by simp) hink (by simpa using hs)
    (g := fun l => nameReports l _ n)
  · intro c
    exact first_forms_of_declared ht hn (fun h => hled (.inl h)) (fun h => hled (.inr (.inl h)))
      (fun h => hled (.inr (.inr h))) (hq.drop _) (plainCast_absent_of_unbroken hq.unbroken) hrest
  · intro line
    rw [nameReports, nameTold]
    split <;> rfl

theorem roundTells_looksLed (hq : Quiet s) (ht : word.Reads t) (hn : n.isIdentifier = true)
    (hled : looksLed t) (hs : s.drop pos = b :: (t ++ ' ' :: n ++ ';' :: v)) :
    RoundTells s line pos (pos + 1 + (t ++ ' ' :: n).length + 1) [] := by
  obtain ⟨d, w, rfl⟩ := List.exists_cons_of_length_pos ht.2
  have hink : Text.isBlank d = false := Text.not_isBlank_of_isWord (ht.1 d List.mem_cons_self)
  have hrest : s.drop (pos + 1) = d :: w ++ ' ' :: n ++ ';' :: v :=
    Text.drop_of_drop_append (u := [b]) hs
  apply roundTells_of_found (u := []) (by simp) hink (by simpa using hs) (g := fun _ => [])
  · intro c
    exact first_forms_of_looksLed hled ht hn (hq.drop _) hrest
  · intro line
    rfl

theorem roundTells_delete (hw : ';' ∉ w)
    (hs : s.drop pos = b :: ([' '] ++ ("delete".toList ++ d :: (w ++ ';' :: v)))) :
    RoundTells s line pos (pos + 2 + ("delete".toList ++ d :: w).length + 1) [] := by
  have hrest : s.drop (pos + 2) = "delete".toList ++ d :: (w ++ ';' :: v) :=
    Text.drop_of_drop_append (u := [b, ' ']) (by simpa using hs)
  apply roundTells_of_found (u := [' ']) (d := 'd') (List.all_eq_true.mp (by decide)) (by decide) hs
    (g := fun _ => [])
  · intro c
    exact first_forms_of_delete hw hrest
  · intro line
    rfl

theorem roundTells_name (hq : Quiet s) (hn : n.isIdentifier = true)
    (hdelete : deleteStatement.matchAt s (pos + 2 : Nat) = none)
    (hs : s.drop pos = b :: ([' '] ++ (n ++ ';' :: v))) :
    RoundTells s line pos (pos + 2 + n.length + 1) [] := by
  obtain ⟨d, w, rfl⟩ := List.exists_cons_of_ne_nil (Text.isIdentifier_ne_nil hn)
  have hink := Text.not_isBlank_of_isIdentifier hn (c := d) (by simp)
  have hrest : s.drop (pos + 2) = d :: w ++ ';' :: v :=
    Text.drop_of_drop_append (u := [b, ' ']) (by simpa using hs)
  apply roundTells_of_none (u := [' ']) (List.all_eq_true.mp (by decide)) hink (by simpa using hs)
  · intro c
    exact first_forms_of_name hn hdelete (hq.drop _) (plainCast_absent_of_unbroken hq.unbroken) hrest
  · apply Text.find_of_drop hrest
    intro hmem
    exact absurd (Text.isWord_of_isIdentifier hn hmem) (by decide)

end Round

namespace Declared

variable (x : Declared)

theorem not_looksLed : ¬looksLed x.type := by
  rintro (h | h | h)
  · exact x.type_not_delete h
  · exact x.type_ne_emit h
  · exact x.type_ne_return h

theorem no_end : ';' ∉ x.type ++ ' ' :: x.name := by
  intro h
  exact absurd (soft_has_declared (word_reads x.type_isIdentifier) x.name_isIdentifier ';' h)
    (by decide)

theorem drop_next {b : Char} (hs : s.drop pos = b :: (x.text ++ v)) :
    s.drop (pos + 1 + x.text.length) = v :=
  Text.drop_of_drop_append (Text.drop_of_drop_append (u := [b]) hs)

theorem roundTells_told (hq : Quiet s) {b : Char} (hs : s.drop pos = b :: (x.text ++ v)) :
    RoundTells s line pos (pos + 1 + x.text.length) x.told := by
  have hnext : pos + 1 + x.text.length = pos + 1 + (x.type ++ ' ' :: x.name).length + 1 := by
    rw [text, List.length_append]
    rfl
  rw [text_append] at hs
  rw [hnext]
  exact roundTells_declared hq (word_reads x.type_isIdentifier) x.name_isIdentifier x.not_looksLed hs

theorem roundTells_clipped_type (hq : Quiet s) (htail : x.type.tail ≠ [])
    (hs : s.drop pos = x.text ++ v) : RoundTells s line pos (pos + x.text.length) x.clippedTold := by
  obtain ⟨b, t, ht⟩ := List.exists_cons_of_ne_nil (Text.isIdentifier_ne_nil x.type_isIdentifier)
  rw [ht, List.tail_cons] at htail
  have hword : word.Reads t := by
    refine ⟨fun c hc => ?_, List.length_pos_iff.mpr htail⟩
    exact Text.isWord_of_isIdentifier x.type_isIdentifier (by simp [ht, hc])
  have hnext : pos + x.text.length = pos + 1 + (t ++ ' ' :: x.name).length + 1 := by
    simp only [text, ht, List.length_append, List.length_cons, List.length_nil]
    omega
  have hs : s.drop pos = b :: (t ++ ' ' :: x.name ++ ';' :: v) := by
    rw [hs, text_append, ht]
    rfl
  rw [hnext, clippedTold, ht, List.tail_cons]
  by_cases hled : looksLed t
  · rw [if_pos (.inr hled)]
    exact roundTells_looksLed hq hword x.name_isIdentifier hled hs
  · rw [if_neg (not_or.mpr ⟨htail, hled⟩)]
    exact roundTells_declared hq hword x.name_isIdentifier hled hs

theorem roundTells_clipped_name (hq : Quiet s) (htail : x.type.tail = [])
    (hname : x.name = "delete".toList → ';' ∉ v) (hs : s.drop pos = x.text ++ v) :
    RoundTells s line pos (pos + x.text.length) x.clippedTold := by
  obtain ⟨b, t, ht⟩ := List.exists_cons_of_ne_nil (Text.isIdentifier_ne_nil x.type_isIdentifier)
  obtain rfl : t = [] := by simpa [ht] using htail
  have hnext : pos + x.text.length = pos + 2 + x.name.length + 1 := by
    simp only [text, ht, List.length_append, List.length_cons, List.length_nil]
    omega
  have hs : s.drop pos = b :: ([' '] ++ (x.name ++ ';' :: v)) := by
    rw [hs, text_append, ht]
    simp
  have hrest : s.drop (pos + 2) = x.name ++ ';' :: v :=
    Text.drop_of_drop_append (u := [b, ' ']) (by simpa using hs)
  rw [hnext, clippedTold, if_pos (.inl htail)]
  by_cases hdelete : "delete".toList <+: x.name
  · obtain ⟨r, hr⟩ := hdelete
    cases r with
    | nil =>
      rw [List.append_nil] at hr
      rw [← hr] at hrest
      exact roundTells_name hq x.name_isIdentifier
        (matchAt_deleteStatement_last (hname hr.symm) hrest) hs
    | cons e r =>
      have hend : ';' ∉ r := by
        intro h
        have hword := Text.isWord_of_isIdentifier x.name_isIdentifier (c := ';') (by simp [← hr, h])
        exact absurd hword (by decide)
      rw [← hr] at hs ⊢
      exact roundTells_delete hend (by simpa using hs)
  · apply roundTells_name hq x.name_isIdentifier _ hs
    exact matchAt_of_not_prefix (by decide) rfl (by decide) hdelete hrest

theorem roundTells_clipped_alone (hq : Quiet s) (hv : x.reachesOn = true → ';' ∉ v)
    (hs : s.drop pos = x.text ++ v) : RoundTells s line pos (pos + x.text.length) x.clippedTold := by
  by_cases htail : x.type.tail = []
  · apply x.roundTells_clipped_name hq htail _ hs
    intro hname
    exact hv (by simp [reachesOn, htail, hname])
  · exact x.roundTells_clipped_type hq htail hs

theorem roundTells_clipped_delete {y : Declared} (hreach : x.reachesOn = true)
    (hs : s.drop pos = x.text ++ (y.text ++ v)) :
    RoundTells s line pos (pos + (x.text ++ y.text).length) x.clippedTold := by
  rw [reachesOn, Bool.and_eq_true, List.isEmpty_iff, beq_iff_eq] at hreach
  obtain ⟨htail, hname⟩ := hreach
  obtain ⟨b, t, ht⟩ := List.exists_cons_of_ne_nil (Text.isIdentifier_ne_nil x.type_isIdentifier)
  obtain rfl : t = [] := by simpa [ht] using htail
  have hnext : pos + (x.text ++ y.text).length =
      pos + 2 + ("delete".toList ++ ';' :: (y.type ++ ' ' :: y.name)).length + 1 := by
    simp only [text, ht, hname, List.length_append, List.length_cons, List.length_nil]
    omega
  rw [hnext, clippedTold, if_pos (.inl htail)]
  apply roundTells_delete y.no_end (b := b) (v := v)
  rw [hs, text_append, text_append, ht, hname]
  simp

end Declared

theorem roundTells_clipped (hq : Quiet s) (d : Declared)
    (hs : s.drop pos = d.text ++ (ds.flatMap Declared.text ++ ['}'])) :
    ∃ next, RoundTells s line pos next d.clippedTold ∧
      s.drop next = (if d.reachesOn then ds.drop 1 else ds).flatMap Declared.text ++ ['}'] := by
  by_cases hreach : d.reachesOn = true
  · rw [if_pos hreach]
    cases ds with
    | nil =>
      have hend : ';' ∉ ([] : List Declared).flatMap Declared.text ++ ['}'] := by decide
      exact ⟨_, d.roundTells_clipped_alone hq (fun _ => hend) hs, Text.drop_of_drop_append hs⟩
    | cons e ds =>
      rw [List.flatMap_cons, List.append_assoc] at hs
      refine ⟨_, d.roundTells_clipped_delete hreach hs, ?_⟩
      rw [← List.append_assoc] at hs
      exact Text.drop_of_drop_append hs
  · rw [if_neg hreach]
    exact ⟨_, d.roundTells_clipped_alone hq (fun h => absurd h hreach) hs, Text.drop_of_drop_append hs⟩

theorem runTells_clipped (hq : Quiet s) (passed : Bool) (hk : ds.length < k)
    (hs : s.drop pos = (if passed then ds.drop 1 else ds).flatMap Declared.text ++ ['}']) :
    RunTells s line k pos (clippedTold passed ds) := by
  induction ds generalizing passed k pos with
  | nil =>
    obtain ⟨k, rfl⟩ := Nat.exists_eq_succ_of_ne_zero (Nat.ne_of_gt hk)
    rw [clippedTold]
    apply runTells_of_end
    rw [hs]
    cases passed <;> rfl
  | cons d ds ih =>
    rw [List.length_cons] at hk
    cases passed with
    | true => exact ih false (by omega) hs
    | false =>
      obtain ⟨k, rfl⟩ := Nat.exists_eq_succ_of_ne_zero (show k ≠ 0 by omega)
      have hs : s.drop pos = d.text ++ (ds.flatMap Declared.text ++ ['}']) := by
        rw [← List.append_assoc]
        exact hs
      obtain ⟨next, hround, hnext⟩ : ∃ next, RoundTells s line pos next d.clippedTold ∧ _ :=
        roundTells_clipped hq d hs
      exact hround.runTells (ih d.reachesOn (by omega) hnext)

theorem runTells_after {b : Char} (hq : Quiet s) (hne : ds ≠ []) (hk : ds.length < k)
    (hs : s.drop pos = b :: ([' '].intercalate (ds.map Declared.text) ++ ['}'])) :
    RunTells s line k pos (ds.flatMap Declared.told) := by
  induction ds generalizing b k pos with
  | nil => exact absurd rfl hne
  | cons d ds ih =>
    rw [List.length_cons] at hk
    obtain ⟨k, rfl⟩ := Nat.exists_eq_succ_of_ne_zero (show k ≠ 0 by omega)
    rw [List.flatMap_cons]
    cases ds with
    | nil =>
      obtain ⟨k, rfl⟩ := Nat.exists_eq_succ_of_ne_zero (show k ≠ 0 by omega)
      rw [List.map_singleton, List.intercalate_singleton] at hs
      exact (d.roundTells_told hq hs).runTells (runTells_of_end (d.drop_next hs))
    | cons e ds =>
      rw [List.map_cons, List.map_cons, List.intercalate_cons_cons, List.append_assoc,
        List.append_assoc] at hs
      exact (d.roundTells_told hq hs).runTells (ih (by simp) (by omega) (d.drop_next hs))

theorem intercalate_nil (xs : List Text) : ([] : Text).intercalate xs = xs.flatten := by
  induction xs with
  | nil => rfl
  | cons x xs ih =>
    cases xs with
    | nil => simp
    | cons y xs => rw [List.intercalate_cons_cons, ih, List.append_nil, ← List.flatten_cons]

theorem runTells_empty {b : Char} (hq : Quiet s) (hno : ';' ∉ s) (hs : s.drop pos = [b, '}']) :
    RunTells s line (k + 1) pos [] := by
  intro r c
  have hrest : s.drop (pos + 1) = ['}'] := Text.drop_of_drop_append (u := [b]) hs
  have hfirst : ∀ c, Form.first forms s (pos + 1 : Nat) c = (.ok none, c) := by
    intro c
    exact first_forms_of_brace (hq.drop _) (plainCast_absent_of_unbroken hq.unbroken) hrest
  obtain ⟨l, c', hround⟩ : ∃ l c', round s 0 (s.length - 1) line ⟨pos, r⟩ c =
      (.ok (proceed s (pos + 1 : Nat) r none), c') :=
    round_at (f := fun _ => none) (u := []) (by simp) (by decide) hs hfirst r c
  refine ⟨[], rfl, ?_⟩
  rw [rounds, Lint.bind_ok hround, proceed, Text.find_of_not_mem hno, List.append_nil]
  rfl

theorem runTells_glued (hq : Quiet (bodyText [] ds)) (hk : ds.length < k) :
    RunTells (bodyText [] ds) line k 0 (gluedTold ds) := by
  obtain ⟨k, rfl⟩ := Nat.exists_eq_succ_of_ne_zero (Nat.ne_of_gt (Nat.zero_lt_of_lt hk))
  cases ds with
  | nil => exact runTells_empty hq (by decide) rfl
  | cons d ds =>
    rw [List.length_cons] at hk
    have hs : (bodyText [] (d :: ds)).drop 0 =
        '{' :: (d.text ++ (ds.flatMap Declared.text ++ ['}'])) := by
      rw [bodyText, intercalate_nil, List.drop_zero, List.map_cons, List.flatten_cons,
        List.flatMap_def]
      simp
    exact (d.roundTells_told hq hs).runTells (runTells_clipped hq false (by omega) (d.drop_next hs))

theorem runTells_spaced (hq : Quiet (bodyText [' '] ds)) (hk : ds.length < k) :
    RunTells (bodyText [' '] ds) line k 0 (ds.flatMap Declared.told) := by
  cases ds with
  | nil =>
    obtain ⟨k, rfl⟩ := Nat.exists_eq_succ_of_ne_zero (Nat.ne_of_gt hk)
    exact runTells_empty hq (by decide) rfl
  | cons d ds => exact runTells_after hq (by simp) hk rfl

section BodyText

variable (hgap : ∀ b ∈ gap, b = ' ')

include hgap

theorem mem_intercalate {b : Char} (hb : b ∈ gap.intercalate (ds.map Declared.text)) :
    Text.isWord b = true ∨ b ∈ [' ', ';'] := by
  induction ds with
  | nil => exact absurd hb List.not_mem_nil
  | cons d ds ih =>
    cases ds with
    | nil =>
      rw [List.map_singleton, List.intercalate_singleton] at hb
      exact d.mem_text hb
    | cons e ds =>
      rw [List.map_cons, List.map_cons, List.intercalate_cons_cons, List.append_assoc,
        List.mem_append, List.mem_append] at hb
      rcases hb with hb | hb | hb
      · exact d.mem_text hb
      · rw [hgap b hb]
        exact .inr (by decide)
      · exact ih hb

theorem quiet_bodyText : Quiet (bodyText gap ds) := by
  have hmem : ∀ b ∈ bodyText gap ds, Text.isWord b = true ∨ b ∈ [' ', ';', '{', '}'] := by
    intro b hb
    rw [bodyText, List.mem_append, List.mem_cons, List.mem_singleton] at hb
    rcases hb with (rfl | hb) | rfl
    · exact .inr (by decide)
    · exact (mem_intercalate hgap hb).imp_right fun h => List.mem_append_left ['{', '}'] h
    · exact .inr (by decide)
  constructor
  · intro h
    exact absurd (hmem _ h) (by decide)
  · intro b hb hangle
    simp only [List.mem_cons, List.not_mem_nil, or_false] at hangle
    rcases hangle with rfl | rfl <;> exact absurd (hmem _ hb) (by decide)

theorem check_of_runTells {c : Context}
    (h : RunTells (bodyText gap ds) c.line ((bodyText gap ds).length + 3) 0 ts) :
    ∃ reports, reports.map told = ts ∧
      (check (bodyText gap ds) 0 c).1 = .ok ⟨⟨0, (bodyText gap ds).length - 1⟩, reports⟩ := by
  have hbalanced : Bracket.brace.Balanced (gap.intercalate (ds.map Declared.text)) := by
    apply Bracket.Balanced.of_forall
    intro b hb
    have hmem := mem_intercalate hgap hb
    constructor <;> rintro rfl <;> exact absurd hmem (by decide)
  have hdrop : (bodyText gap ds).drop 0 =
      '{' :: gap.intercalate (ds.map Declared.text) ++ '}' :: [] := rfl
  have hstop : ((0 + (gap.intercalate (ds.map Declared.text)).length + 1 : Nat) : Int) =
      (bodyText gap ds).length - 1 := by
    simp only [bodyText, List.length_append, List.length_cons, List.length_nil]
    omega
  obtain ⟨reports, hts, hrun⟩ := h [] c
  refine ⟨reports, hts, ?_⟩
  rw [← hstop] at hrun ⊢
  exact check_of_block hbalanced hdrop hrun

end BodyText

def size (ts : List Told) : Nat := (ts.flatMap fun x => x.2.getD []).length

theorem size_append (ts us : List Told) : size (ts ++ us) = size ts + size us := by
  rw [size, List.flatMap_append, List.length_append, size, size]

def Declared.breaks (x : Declared) : Bool := !decide ("l_".toList <+: x.name)

theorem Declared.told_eq_nil {x : Declared} (h : x.breaks = false) :
    x.told = [] ∧ x.clippedTold = [] := by
  have hname : "l_".toList <+: x.name := by simpa [breaks] using h
  have htold (t : Text) : nameTold t x.name = [] := by rw [nameTold, if_pos hname]
  rw [told, clippedTold, htold, htold, ite_self]
  exact ⟨rfl, rfl⟩

theorem Declared.size_clipped_lt {x : Declared} (h : x.breaks = true) :
    size x.clippedTold < size x.told := by
  have hname : ¬"l_".toList <+: x.name := by simpa [breaks] using h
  have hsize (t : Text) : size (nameTold t x.name) = t.length + x.name.length + 2 := by
    rw [nameTold, if_neg hname]
    simp [size]
    omega
  have hle := List.length_tail (l := x.type)
  rw [told, hsize, clippedTold]
  split
  · simp [size]
  · rw [hsize]
    have htype := List.length_pos_iff.mpr (Text.isIdentifier_ne_nil x.type_isIdentifier)
    omega

theorem size_clippedTold_le (passed : Bool) (ds : List Declared) :
    size (clippedTold passed ds) + ds.countP Declared.breaks ≤ size (ds.flatMap Declared.told) := by
  induction ds generalizing passed with
  | nil => cases passed <;> exact Nat.le_refl 0
  | cons d ds ih =>
    have hd : size d.clippedTold + (if d.breaks then 1 else 0) ≤ size d.told := by
      cases hbreaks : d.breaks with
      | true => exact Declared.size_clipped_lt hbreaks
      | false => simp [Declared.told_eq_nil hbreaks]
    rw [List.flatMap_cons, size_append, List.countP_cons]
    cases passed with
    | true =>
      have hds := ih false
      rw [clippedTold]
      omega
    | false =>
      have hds := ih d.reachesOn
      rw [clippedTold, size_append]
      omega

theorem clippedTold_eq_nil (h : ∀ d ∈ ds, d.breaks = false) (passed : Bool) :
    clippedTold passed ds = [] := by
  induction ds generalizing passed with
  | nil => cases passed <;> rfl
  | cons d ds ih =>
    have hds := ih fun e he => h e (List.mem_cons_of_mem d he)
    cases passed with
    | true => exact hds false
    | false =>
      have hd := Declared.told_eq_nil (h d List.mem_cons_self)
      rw [clippedTold, hd.2, hds, List.append_nil]

theorem clippedTold_eq_iff (ds : List Declared) :
    clippedTold false ds = ds.flatMap Declared.told ↔ ∀ d ∈ ds, "l_".toList <+: d.name := by
  have hbreaks (d : Declared) : d.breaks = false ↔ "l_".toList <+: d.name := by
    simp [Declared.breaks]
  constructor
  · intro h d hd
    have hle := size_clippedTold_le false ds
    have hzero : ds.countP Declared.breaks = 0 := by
      rw [h] at hle
      omega
    rw [← hbreaks]
    simpa using List.countP_eq_zero.mp hzero d hd
  · intro h
    have hkept : ∀ d ∈ ds, d.breaks = false := fun d hd => (hbreaks d).mpr (h d hd)
    rw [clippedTold_eq_nil hkept, eq_comm, List.flatMap_eq_nil_iff]
    intro d hd
    exact (Declared.told_eq_nil (hkept d hd)).1

theorem length_le_bodyText (gap : Text) (ds : List Declared) :
    ds.length ≤ (bodyText gap ds).length := by
  have hle : ds.length ≤ (gap.intercalate (ds.map Declared.text)).length := by
    induction ds with
    | nil => exact Nat.le_refl 0
    | cons d ds ih =>
      have hd : 0 < d.text.length := List.length_pos_iff.mpr (by simp [Declared.text])
      cases ds with
      | nil => simpa using Nat.succ_le_of_lt hd
      | cons e ds =>
        rw [List.map_cons, List.map_cons, List.intercalate_cons_cons, List.length_append,
          List.length_append, List.length_cons]
        rw [List.map_cons] at ih
        omega
  simp only [bodyText, List.length_append, List.length_cons]
  omega

theorem check_spacing (ds : List Declared) (c : Context) :
    ∃ glued spaced : List Report,
      (check (bodyText [] ds) 0 c).1 = .ok ⟨⟨0, (bodyText [] ds).length - 1⟩, glued⟩ ∧
      (check (bodyText [' '] ds) 0 c).1 = .ok ⟨⟨0, (bodyText [' '] ds).length - 1⟩, spaced⟩ ∧
      glued.map told = gluedTold ds ∧ spaced.map told = ds.flatMap Declared.told ∧
      (glued.map told = spaced.map told ↔ ∀ d ∈ ds.tail, "l_".toList <+: d.name) := by
  have hglued : ∀ b ∈ ([] : Text), b = ' ' := by simp
  have hspaced : ∀ b ∈ [' '], b = ' ' := by simp
  have hbound (gap : Text) : ds.length < (bodyText gap ds).length + 3 := by
    have hle := length_le_bodyText gap ds
    omega
  obtain ⟨glued, htold, hcheck⟩ :=
    check_of_runTells hglued (c := c) (runTells_glued (quiet_bodyText hglued) (hbound []))
  obtain ⟨spaced, htold', hcheck'⟩ :=
    check_of_runTells hspaced (c := c) (runTells_spaced (quiet_bodyText hspaced) (hbound [' ']))
  refine ⟨glued, spaced, hcheck, hcheck', htold, htold', ?_⟩
  rw [htold, htold']
  cases ds with
  | nil => simp [gluedTold]
  | cons d ds =>
    rw [gluedTold, List.flatMap_cons, List.append_cancel_left_eq, List.tail_cons]
    exact clippedTold_eq_iff ds

theorem check_clips_declaration :
    (check "\x7bint x;int y;\x7d".toList 0 {}).1 =
      .ok ⟨⟨0, 13⟩, [⟨0, .localLead, some "int x;".toList, none⟩,
        ⟨0, .localLead, some "nt y;".toList, none⟩]⟩ :=
  Scan.eq_ok_of_toOption (by decide +kernel)

end CodeAudit.Body

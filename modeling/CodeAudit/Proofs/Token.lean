import CodeAudit.Proofs.Text.Identifier
import CodeAudit.Proofs.Text.Scanning
import CodeAudit.Token

namespace CodeAudit.Token

variable {s u v w : Text} {a : Nat}

theorem stop_mk (a : Nat) (w : Text) : (⟨a, w⟩ : Token).stop = a + w.length := rfl

theorem next_of_drop (hs : s.drop a = ';' :: v) : next s a = .ok ⟨a, [';']⟩ := by
  have ha : a ≤ s.length := by have := Text.le_length_of_drop (u := []) hs; omega
  have hseek : s.seek a = (a, ';' :: v) := by rw [Text.seek_natCast ha, hs]
  have hlead : lead (';' :: v) = [';'] := rfl
  simp [next, next?, hseek, first?, hlead]

theorem isBlank_of_isMark {a : Char} (h : isMark a = true) : Text.isBlank a = false := by
  have hmarks : ['}', '{', ';', '(', ')', ',', '*', '<', '>', '[', ']', '='].all
      (!Text.isBlank ·) = true := by decide
  have hink := List.all_eq_true.mp hmarks a (List.contains_iff_mem.mp h)
  simpa using hink

theorem head?_lead {a : Char} (h : lead (a :: w) ≠ []) :
    (lead (a :: w)).head? = some a ∧ Text.isBlank a = false := by
  rw [lead] at h ⊢
  split
  · rename_i hword
    rw [List.takeWhile_cons_of_pos hword]
    refine ⟨rfl, ?_⟩
    cases hblank : Text.isBlank a with
    | false => rfl
    | true => rw [Text.isWord_of_isBlank hblank] at hword; cases hword
  · rename_i hword
    rw [if_neg hword] at h
    split
    · rename_i hmark
      exact ⟨rfl, isBlank_of_isMark hmark⟩
    · rename_i hmark
      rw [if_neg hmark] at h
      split
      · rename_i hcolons
        obtain ⟨rfl, -⟩ := List.cons_prefix_cons.mp (List.isPrefixOf_iff_prefix.mp hcolons)
        exact ⟨rfl, by decide⟩
      · rename_i hcolons
        rw [if_neg hcolons] at h
        exact absurd rfl h

theorem first?_eq_some {pos : Nat} {t : Token} (h : first? pos w = some t) :
    ∃ n e, t.start = pos + n ∧ w[n]? = some e ∧ t.text.head? = some e ∧ Text.isBlank e = false := by
  induction w generalizing pos with
  | nil => cases h
  | cons a w ih =>
    rw [first?] at h
    split at h
    · obtain ⟨n, e, hstart, he, htext⟩ := ih h
      exact ⟨n + 1, e, by omega, he, htext⟩
    · rename_i hlead
      obtain rfl := Option.some.inj h
      obtain ⟨hhead, hink⟩ := head?_lead (by simpa using hlead)
      exact ⟨0, a, rfl, rfl, hhead, hink⟩

theorem next_found (s : Text) (i : Int) : Scan.Ensures (next s i) fun t =>
    ∃ e, i.toNat ≤ t.start ∧ s[t.start]? = some e ∧ t.text.head? = some e ∧
      Text.isBlank e = false := by
  intro t ht
  rw [next, next?, Text.seek_eq] at ht
  split at ht
  · rename_i t' hfirst
    obtain rfl := Except.ok.inj ht
    obtain ⟨n, e, hstart, he, htext⟩ := first?_eq_some hfirst
    have hlt := (List.getElem?_eq_some_iff.mp he).1
    rw [List.length_drop] at hlt
    rw [List.getElem?_drop] at he
    refine ⟨e, by omega, ?_, htext⟩
    rw [hstart, Nat.min_eq_left (by omega), he]
  · cases ht

theorem start_lt_of_next {s : Text} {i : Int} {t : Token} (h : next s i = .ok t) :
    i ≤ t.start ∧ t.start < t.stop := by
  obtain ⟨e, hle, -, hhead, -⟩ := next_found s i t h
  have hpos : 0 < t.text.length :=
    List.length_pos_iff.mpr (List.ne_nil_of_mem (List.mem_of_mem_head? hhead))
  rw [stop]
  omega

theorem exists_find_of_next {a : Nat} {d : Char} {t : Token} (h : next s a = .ok t)
    (ht : t.text = [d]) : ∃ b : Nat, s.find d a = b := by
  obtain ⟨e, hle, he, hhead, -⟩ := next_found s a t h
  obtain rfl : d = e := by simpa [ht] using hhead
  rcases Text.find_cases s d a with ⟨-, hno⟩ | ⟨b, hb, -⟩
  · rw [Text.bound_natCast] at hno
    rw [Int.toNat_natCast] at hle
    exact absurd (Text.mem_drop_of_getElem? hle he) hno
  · exact ⟨b, hb⟩

theorem first?_of_lead_eq_nil {c : Char} {pos : Nat} (h : lead (c :: w) = []) :
    first? pos (c :: w) = first? (pos + 1) w := by
  rw [first?, h]
  rfl

theorem first?_of_lead_ne_nil {c : Char} {pos : Nat} (h : lead (c :: w) ≠ []) :
    first? pos (c :: w) = some ⟨pos, lead (c :: w)⟩ := by
  rw [first?, if_neg (mt List.isEmpty_iff.mp h)]

theorem not_isWord_of_isMark {c : Char} (h : isMark c = true) : Text.isWord c = false := by
  have hmarks : ['}', '{', ';', '(', ')', ',', '*', '<', '>', '[', ']', '='].all
      (!Text.isWord ·) = true := by decide
  simpa using List.all_eq_true.mp hmarks c (List.contains_iff_mem.mp h)

theorem lead_mark {c : Char} (h : isMark c = true) : lead (c :: w) = [c] := by
  rw [lead, if_neg (Bool.eq_false_iff.mp (not_isWord_of_isMark h)), if_pos h]

theorem lead_blank {c : Char} (h : Text.isBlank c = true) : lead (c :: w) = [] := by
  by_cases hlead : lead (c :: w) = []
  · exact hlead
  · have hink := (head?_lead hlead).2
    rw [h] at hink
    cases hink

theorem first?_append_blanks {pos : Nat} (hu : ∀ b ∈ u, Text.isBlank b = true) :
    first? pos (u ++ w) = first? (pos + u.length) w := by
  induction u generalizing pos with
  | nil => rfl
  | cons b u ih =>
    rw [List.cons_append, first?_of_lead_eq_nil (lead_blank (hu b List.mem_cons_self)),
      ih fun d hd => hu d (List.mem_cons_of_mem _ hd)]
    congr 1
    rw [List.length_cons]
    omega

theorem first?_mark {c : Char} {pos : Nat} (h : isMark c = true) :
    first? pos (c :: w) = some ⟨pos, [c]⟩ := by
  have hlead : lead (c :: w) = [c] := lead_mark h
  rw [first?_of_lead_ne_nil (by simp [hlead]), hlead]

theorem next_of_first? {t : Token} (ha : a ≤ s.length) (h : first? a (s.drop a) = some t) :
    next s a = .ok t := by
  simp only [next, next?, Text.seek_natCast ha, h]

theorem lead_word {c : Char} (hc : Text.isWord c = true)
    (hv : ∀ b ∈ v.head?, Text.isWord b = false) :
    lead (c :: w ++ v) = (c :: w).takeWhile Text.isWord := by
  have hstop : v.takeWhile Text.isWord = [] := by
    cases v with
    | nil => rfl
    | cons b v => exact List.takeWhile_cons_of_neg (by simp [hv b rfl])
  rw [List.cons_append, lead, if_pos hc, ← List.cons_append, List.takeWhile_append]
  split
  · rename_i hall
    rw [hstop, List.append_nil]
    exact ((List.takeWhile_prefix _).eq_of_length hall).symm
  · rfl

theorem first?_word {pos : Nat} (hw : ∀ b ∈ w, Text.isWord b = true) (hne : w ≠ [])
    (hv : ∀ b ∈ v.head?, Text.isWord b = false) : first? pos (w ++ v) = some ⟨pos, w⟩ := by
  obtain ⟨c, w, rfl⟩ := List.exists_cons_of_ne_nil hne
  have hall : (c :: w ++ []).takeWhile Text.isWord = c :: w ++ [] :=
    List.takeWhile_append_of_pos hw
  rw [List.append_nil] at hall
  have hlead : lead (c :: w ++ v) = c :: w := by
    rw [lead_word (hw c List.mem_cons_self) hv, hall]
  rw [List.cons_append] at hlead ⊢
  rw [first?_of_lead_ne_nil (by simp [hlead]), hlead]

theorem next_word (hu : ∀ b ∈ u, Text.isBlank b = true) (hw : ∀ b ∈ w, Text.isWord b = true)
    (hne : w ≠ []) (hv : ∀ b ∈ v.head?, Text.isWord b = false) (hs : s.drop a = u ++ (w ++ v)) :
    next s a = .ok ⟨a + u.length, w⟩ := by
  apply next_of_first?
  · obtain ⟨c, w, rfl⟩ := List.exists_cons_of_ne_nil hne
    have hlt := Text.le_length_of_drop hs
    omega
  · rw [hs, first?_append_blanks hu, first?_word hw hne hv]

theorem next_mark {c : Char} (hu : ∀ b ∈ u, Text.isBlank b = true) (hc : isMark c = true)
    (hs : s.drop a = u ++ c :: v) : next s a = .ok ⟨a + u.length, [c]⟩ := by
  apply next_of_first?
  · have hlt := Text.le_length_of_drop hs
    omega
  · rw [hs, first?_append_blanks hu, first?_mark hc]

variable {pos : Nat} {t : Token}

theorem lead_append_mark {c d : Char} (hd : isMark d = true) :
    lead (c :: w ++ d :: v) = lead (c :: w) := by
  by_cases hc : Text.isWord c = true
  · have hstop : ∀ b ∈ (d :: v).head?, Text.isWord b = false := by
      simpa using not_isWord_of_isMark hd
    have hself := lead_word (w := w) (v := []) hc (by simp)
    rw [List.append_nil] at hself
    rw [lead_word hc hstop, hself]
  · have hcolons : [':', ':'].isPrefixOf (c :: (w ++ d :: v)) = [':', ':'].isPrefixOf (c :: w) := by
      cases w with
      | nil =>
        have hne : (':' == d) = false := by
          apply beq_false_of_ne
          rintro rfl
          exact absurd hd (by decide)
        simp [List.isPrefixOf, hne]
      | cons e w => simp [List.isPrefixOf]
    simp only [List.cons_append, lead, if_neg hc, hcolons]

theorem first?_append_mark {d : Char} (hd : isMark d = true) (h : first? pos w = some t) :
    first? pos (w ++ d :: v) = some t := by
  induction w generalizing pos with
  | nil => cases h
  | cons c w ih =>
    have hlong : lead (c :: (w ++ d :: v)) = lead (c :: w) := lead_append_mark hd
    by_cases hlead : lead (c :: w) = []
    · rw [first?_of_lead_eq_nil hlead] at h
      rw [List.cons_append, first?_of_lead_eq_nil (hlong.trans hlead)]
      exact ih h
    · rw [first?_of_lead_ne_nil hlead] at h
      rw [List.cons_append, first?_of_lead_ne_nil (by rwa [hlong]), hlong, h]

theorem first?_add (k : Nat) (h : first? pos w = some t) :
    first? (k + pos) w = some ⟨k + t.start, t.text⟩ := by
  induction w generalizing pos with
  | nil => cases h
  | cons c w ih =>
    by_cases hlead : lead (c :: w) = []
    · rw [first?_of_lead_eq_nil hlead] at h ⊢
      exact ih h
    · rw [first?_of_lead_ne_nil hlead] at h ⊢
      rw [← Option.some.inj h]

theorem next_of_first?_drop (hs : s.drop a = w) (hw : first? 0 w = some t) :
    next s a = .ok ⟨a + t.start, t.text⟩ := by
  apply next_of_first?
  · apply Nat.le_of_not_lt
    intro hlt
    rw [List.drop_eq_nil_of_le (Nat.le_of_lt hlt)] at hs
    rw [← hs] at hw
    cases hw
  · rw [hs]
    exact first?_add a hw

theorem lead_length_le (w : Text) : (lead w).length ≤ w.length := by
  cases w with
  | nil => exact Nat.le_refl 0
  | cons c w =>
    rw [lead]
    split
    · exact (List.takeWhile_prefix _).length_le
    · split
      · simp
      · split
        · rename_i hcolons
          exact (List.isPrefixOf_iff_prefix.mp hcolons).length_le
        · simp

theorem first?_stop_le (h : first? pos w = some t) : t.stop ≤ pos + w.length := by
  induction w generalizing pos with
  | nil => cases h
  | cons c w ih =>
    by_cases hlead : lead (c :: w) = []
    · rw [first?_of_lead_eq_nil hlead] at h
      have hle := ih h
      rw [List.length_cons]
      omega
    · rw [first?_of_lead_ne_nil hlead] at h
      rw [← Option.some.inj h, stop]
      exact Nat.add_le_add_left (lead_length_le (c :: w)) pos

theorem takeWhile_mem_splitOnP (w : Text) :
    w.takeWhile Text.isWord ∈ w.splitOnP (!Text.isWord ·) := by
  apply List.mem_of_mem_head?
  induction w with
  | nil => rfl
  | cons c w ih =>
    rw [List.splitOnP_cons_eq_if_modifyHead]
    by_cases hc : Text.isWord c = true
    · simp [hc, List.head?_modifyHead, Option.mem_def.mp ih]
    · simp [hc]

theorem lead_mem_or {c : Char} (hv : ∀ b ∈ v.head?, Text.isWord b = false) :
    lead (c :: w ++ v) ∈ (c :: w).splitOnP (!Text.isWord ·) ∨
      ∀ b ∈ lead (c :: w ++ v), Text.isWord b = false := by
  by_cases hc : Text.isWord c = true
  · rw [lead_word hc hv]
    exact .inl (takeWhile_mem_splitOnP _)
  · right
    rw [List.cons_append, lead, if_neg hc]
    split
    · simpa using hc
    · split
      · simp [show Text.isWord ':' = false by decide]
      · simp

end CodeAudit.Token

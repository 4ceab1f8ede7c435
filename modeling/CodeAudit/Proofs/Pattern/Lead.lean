import CodeAudit.Proofs.Pattern.Language

/-!
What the beginning of a text tells about a pattern. A text is split at its first character outside
of a class; a pattern that can read neither the part before this character nor beyond it is not
found there.
-/

namespace CodeAudit

def CharClass.mayMeet : CharClass → CharClass → Bool
  | among [], _ => false
  | k, among cs => cs.any k.has
  | _, _ => true

theorem CharClass.mayMeet_of_has {k c : CharClass} {a : Char} (hk : k.has a = true)
    (hc : c.has a = true) : k.mayMeet c = true := by
  unfold mayMeet
  split
  · simp [has] at hk
  · rename_i cs hne
    simp only [has, List.contains_eq_mem, decide_eq_true_eq] at hc
    exact List.any_eq_true.mpr ⟨a, hc, hk⟩
  · rfl

namespace Pattern

variable {p q : Pattern} {k : CharClass} {d : Char} {s u v w : Text} {m : Match} {a : Nat}

def staysIn (k : CharClass) : Pattern → Bool
  | lit cs => cs.all k.has
  | one c => k.mayMeet c
  | run c least _ _ => least == 0 || k.mayMeet c
  | cat p q => p.staysIn k && q.staysIn k
  | alt p q => p.staysIn k || q.staysIn k
  | group _ p => p.staysIn k
  | _ => true

def leavesWith (k : CharClass) (d : Char) : Pattern → Bool
  | lit cs => (cs.dropWhile k.has).head? == some d
  | one c | run c _ _ _ => c.has d
  | cat p q => p.leavesWith k d || p.staysIn k && q.leavesWith k d
  | alt p q => p.leavesWith k d || q.leavesWith k d
  | group _ p => p.leavesWith k d
  | _ => true

theorem staysIn_of_reads (h : p.Reads w) (hw : ∀ a ∈ w, k.has a = true) : p.staysIn k = true := by
  induction p generalizing w with
  | lit cs =>
    obtain rfl : w = cs := h
    exact List.all_eq_true.mpr hw
  | one c =>
    obtain ⟨a, rfl, ha⟩ := h
    exact CharClass.mayMeet_of_has (hw a (by simp)) ha
  | run c least most greedy =>
    cases most with
    | some n => exact h.elim
    | none =>
      obtain ⟨hc, hl⟩ := h
      cases w with
      | nil => simp [staysIn, Nat.le_zero.mp hl]
      | cons a w =>
        have hm : k.mayMeet c = true := CharClass.mayMeet_of_has (hw a (by simp)) (hc a (by simp))
        simp [staysIn, hm]
  | cat p q ihp ihq =>
    obtain ⟨u, v, rfl, hu, hv⟩ := h
    simp only [staysIn, Bool.and_eq_true]
    exact ⟨ihp hu fun a ha => hw a (by simp [ha]), ihq hv fun a ha => hw a (by simp [ha])⟩
  | alt p q ihp ihq =>
    simp only [staysIn, Bool.or_eq_true]
    exact h.imp (ihp · hw) (ihq · hw)
  | group name p ih => exact ih h hw
  | rep | again | edge | look | atomic | ifGroup => exact h.elim

theorem leavesWith_of_reads (h : p.Reads (u ++ d :: v)) (hu : ∀ a ∈ u, k.has a = true)
    (hd : k.has d = false) : p.leavesWith k d = true := by
  induction p generalizing u v with
  | lit cs =>
    obtain rfl : u ++ d :: v = cs := h
    have hdrop : (u ++ d :: v).dropWhile k.has = d :: v := by
      rw [List.dropWhile_append_of_pos hu, List.dropWhile_cons_of_neg (by simp [hd])]
    simp [leavesWith, hdrop]
  | one c =>
    obtain ⟨a, he, ha⟩ := h
    cases u with
    | nil => obtain ⟨rfl, -⟩ := List.cons.inj he; exact ha
    | cons b u => simp at he
  | run c least most greedy =>
    cases most with
    | some n => exact h.elim
    | none => exact h.1 d (by simp)
  | cat p q ihp ihq =>
    obtain ⟨w₁, w₂, he, h₁, h₂⟩ := h
    simp only [leavesWith, Bool.or_eq_true, Bool.and_eq_true]
    rcases List.append_eq_append_iff.mp he with ⟨t, rfl, ht⟩ | ⟨t, rfl, rfl⟩
    · cases t with
      | nil =>
        rw [List.append_nil] at h₁
        obtain rfl : d :: v = w₂ := ht
        exact .inr ⟨staysIn_of_reads h₁ hu, ihq (u := []) h₂ (by simp)⟩
      | cons b t =>
        obtain ⟨rfl, -⟩ := List.cons.inj ht
        exact .inl (ihp h₁ hu)
    · exact .inr ⟨staysIn_of_reads h₁ fun a ha => hu a (by simp [ha]),
        ihq h₂ fun a ha => hu a (by simp [ha])⟩
  | alt p q ihp ihq =>
    simp only [leavesWith, Bool.or_eq_true]
    exact h.imp (ihp · hu) (ihq · hu)
  | group name p ih => exact ih h hu
  | rep | again | edge | look | atomic | ifGroup => exact h.elim

theorem exists_read_of_append (hs : w ++ v = u ++ d :: s) :
    (∃ t, u = w ++ t) ∨ ∃ t, w = u ++ d :: t := by
  rcases List.append_eq_append_iff.mp hs with ⟨t, rfl, -⟩ | ⟨t, rfl, ht⟩
  · exact .inl ⟨t, rfl⟩
  · cases t with
    | nil => exact .inl ⟨[], by simp⟩
    | cons b t =>
      obtain ⟨rfl, -⟩ := List.cons.inj ht
      exact .inr ⟨t, rfl⟩

theorem append_inj_of_has {e : Char} {r : Text} (hu : ∀ a ∈ u, k.has a = true)
    (hw : ∀ a ∈ w, k.has a = true) (hd : k.has d = false) (he : k.has e = false)
    (h : u ++ d :: v = w ++ e :: r) : u = w ∧ d :: v = e :: r := by
  rcases List.append_eq_append_iff.mp h with ⟨t, rfl, ht⟩ | ⟨t, rfl, ht⟩
  · cases t with
    | nil => exact ⟨by simp, ht⟩
    | cons b t =>
      obtain ⟨rfl, -⟩ := List.cons.inj ht
      rw [hw d (by simp)] at hd
      cases hd
  · cases t with
    | nil => exact ⟨by simp, ht.symm⟩
    | cons b t =>
      obtain ⟨rfl, -⟩ := List.cons.inj ht
      rw [hu e (by simp)] at he
      cases he

def misses (k : CharClass) (d : Char) (p : Pattern) : Bool :=
  p.isPlain && !k.has d && !p.staysIn k && !p.leavesWith k d

theorem matchAt_of_misses (hp : p.misses k d = true) (hu : ∀ a ∈ u, k.has a = true)
    (hs : s.drop a = u ++ d :: v) : p.matchAt s a = none := by
  simp only [misses, Bool.and_eq_true, Bool.not_eq_true'] at hp
  obtain ⟨⟨⟨hplain, hd⟩, hstay⟩, hleave⟩ := hp
  have ha : a ≤ s.length := by
    have hl := congrArg List.length hs
    simp only [List.length_drop, List.length_append, List.length_cons] at hl
    omega
  apply matchAt_eq_none hplain ha
  intro w t hw hr
  rcases exists_read_of_append (hw.symm.trans hs) with ⟨t, rfl⟩ | ⟨t, rfl⟩
  · have hin := staysIn_of_reads hr fun a ha => hu a (by simp [ha])
    rw [hstay] at hin
    exact absurd hin Bool.false_ne_true
  · have hout := leavesWith_of_reads hr hu hd
    rw [hleave] at hout
    exact absurd hout Bool.false_ne_true

theorem matchAt_of_not_staysIn (hp : p.isPlain = true) (hstay : p.staysIn k = false)
    (ha : a ≤ s.length) (hs : ∀ b ∈ s.drop a, k.has b = true) : p.matchAt s a = none := by
  apply matchAt_eq_none hp ha
  intro w v hw hr
  have hin := staysIn_of_reads hr fun b hb => hs b (by rw [hw]; exact List.mem_append_left v hb)
  rw [hstay] at hin
  exact absurd hin Bool.false_ne_true

theorem search_of_not_staysIn (hp : p.isPlain = true) (hstay : p.staysIn k = false) {i : Int}
    (hs : ∀ b ∈ s.drop i.toNat, k.has b = true) : p.search s i = none := by
  cases hm : p.search s i with
  | none => rfl
  | some m =>
    rw [search, Text.seek_eq, ← Text.drop_min_length] at hm
    obtain ⟨hle, hlen, hhere⟩ := searchHere_eq_some (Nat.min_le_right ..) hm
    have hafter : ∀ b ∈ s.drop m.start, k.has b = true := by
      intro b hb
      apply hs
      rw [← Text.drop_min_length]
      exact (List.drop_suffix_drop_left s hle).subset hb
    have hnone := matchAt_of_not_staysIn hp hstay hlen hafter
    rw [matchAt_natCast hlen, hhere] at hnone
    cases hnone

theorem matchBefore_of_matchAt (hp : p.isPlain = true) (ha : a ≤ s.length)
    (h : p.matchAt s a = none) (limit : Int) : p.matchBefore s a limit = none := by
  cases hm : p.matchBefore s a limit with
  | none => rfl
  | some m =>
    obtain ⟨hstart, -, -, hmem⟩ := matchAt_eq_some hm
    obtain ⟨w, hw, -, hr⟩ := reads_of_mem_ends hp hmem
    change (s.take limit.toNat).drop m.start = _ at hw
    rw [hstart, Int.toNat_natCast, Text.drop_min_length, List.drop_take] at hw
    have hs : s.drop a = w ++ ((s.take limit.toNat).drop m.stop ++ (s.drop a).drop (limit.toNat - a)) := by
      rw [← List.append_assoc, ← hw, List.take_append_drop]
    obtain ⟨m', hm', -⟩ := exists_matchAt ha hr hs
    rw [h] at hm'
    cases hm'

theorem stop_of_matchAt_cat_lit (hp : p.isPlain = true) (hd : k.has d = false)
    (hleave : p.leavesWith k d = false) (hu : ∀ a ∈ u, k.has a = true)
    (hs : s.drop a = u ++ d :: v) (ha : a ≤ s.length)
    (h : (p ++ lit [d]).matchAt s a = some m) : m.stop = a + u.length + 1 := by
  have hplain : (p ++ lit [d]).isPlain = true := by
    change (p.isPlain && true) = true
    rw [hp, Bool.and_true]
  obtain ⟨w, t, hw, -, hstop, hr⟩ := reads_of_matchAt hplain ha h
  obtain ⟨w₁, w₂, rfl, h₁, rfl⟩ := hr
  rw [hs, List.append_assoc] at hw
  rcases exists_read_of_append hw.symm with ⟨r, rfl⟩ | ⟨r, rfl⟩
  · rw [List.append_assoc, List.append_cancel_left_eq] at hw
    cases r with
    | nil => simp [hstop]; omega
    | cons b r =>
      have hb : b = d := (List.cons.inj hw).1
      have hin := hu b (by simp)
      rw [hb, hd] at hin
      exact absurd hin Bool.false_ne_true
  · have hout := leavesWith_of_reads h₁ hu hd
    rw [hleave] at hout
    exact absurd hout Bool.false_ne_true

def openings : Pattern → List Text
  | lit cs => [cs]
  | cat p _ => p.openings
  | alt p q => p.openings ++ q.openings
  | group _ p => p.openings
  | _ => [[]]

theorem exists_opening_of_reads (h : p.Reads w) : ∃ o ∈ p.openings, o <+: w := by
  induction p generalizing w with
  | lit cs =>
    obtain rfl : w = cs := h
    exact ⟨w, by simp [openings], List.prefix_rfl⟩
  | cat p q ihp ihq =>
    obtain ⟨u, v, rfl, hu, -⟩ := h
    obtain ⟨o, ho, hpre⟩ := ihp hu
    exact ⟨o, ho, hpre.trans (List.prefix_append u v)⟩
  | alt p q ihp ihq =>
    rcases h with h | h
    · obtain ⟨o, ho, hpre⟩ := ihp h
      exact ⟨o, List.mem_append_left _ ho, hpre⟩
    · obtain ⟨o, ho, hpre⟩ := ihq h
      exact ⟨o, List.mem_append_right _ ho, hpre⟩
  | group name p ih => exact ih h
  | one | run | rep | again | edge | look | atomic | ifGroup =>
    exact ⟨[], by simp [openings], List.nil_prefix⟩

theorem matchAt_of_openings (hp : p.isPlain = true) (ha : a ≤ s.length)
    (h : ∀ o ∈ p.openings, ¬o <+: s.drop a) : p.matchAt s a = none := by
  apply matchAt_eq_none hp ha
  intro w v hs hr
  obtain ⟨o, ho, hpre⟩ := exists_opening_of_reads hr
  exact h o ho (hs ▸ hpre.trans (List.prefix_append w v))

inductive Opens (q : Pattern) : Pattern → Prop
  | refl : Opens q q
  | cat {p r : Pattern} (h : Opens q p) : Opens q (p ++ r)

theorem Opens.exists_reads (h : Opens q p) (hr : p.Reads w) :
    ∃ u v, w = u ++ v ∧ q.Reads u := by
  induction h generalizing w with
  | refl => exact ⟨w, [], (List.append_nil w).symm, hr⟩
  | cat _ ih =>
    obtain ⟨w₁, w₂, rfl, h₁, -⟩ := hr
    obtain ⟨u, v, rfl, hu⟩ := ih h₁
    exact ⟨u, v ++ w₂, List.append_assoc u v w₂, hu⟩

theorem prefix_of_not_mem (hd : d ∉ w) (h : w <+: u ++ d :: v) : w <+: u := by
  obtain ⟨r, hr⟩ := h
  rcases exists_read_of_append hr with ⟨t, rfl⟩ | ⟨t, rfl⟩
  · exact List.prefix_append w t
  · exact absurd (by simp) hd

end Pattern

end CodeAudit

import CodeAudit.Proofs.Pattern.Found

/-!
The texts that a plain pattern reads. A plain pattern looks at nothing but the characters that it
reads, so that it is found exactly where one of its texts stands.
-/

namespace CodeAudit.Pattern

variable {p q : Pattern} {s u v w : Text} {x : Place} {m : Match} {a : Nat}

def isPlain : Pattern → Bool
  | lit _ | one _ | run _ _ none _ => true
  | cat p q | alt p q => p.isPlain && q.isPlain
  | group _ p => p.isPlain
  | _ => false

def Reads : Pattern → Text → Prop
  | lit cs, w => w = cs
  | one c, w => ∃ a, w = [a] ∧ c.has a = true
  | run c least none _, w => (∀ a ∈ w, c.has a = true) ∧ least ≤ w.length
  | cat p q, w => ∃ u v, w = u ++ v ∧ p.Reads u ∧ q.Reads v
  | alt p q, w => p.Reads w ∨ q.Reads w
  | group _ p, w => p.Reads w
  | _, _ => False

theorem Reads.cat (hp : p.Reads u) (hq : q.Reads v) : (p ++ q).Reads (u ++ v) :=
  ⟨u, v, rfl, hp, hq⟩

theorem Reads.opt_none : (opt p).Reads [] := Or.inr rfl

theorem Reads.opt_some (h : p.Reads w) : (opt p).Reads w := Or.inl h

theorem reads_of_mem_ends {y : Place} (hp : p.isPlain = true) (h : y ∈ p.ends s x) :
    ∃ w, x.rest = w ++ y.rest ∧ y.pos = x.pos + w.length ∧ p.Reads w := by
  induction p generalizing x y with
  | lit cs =>
    obtain ⟨rest, hr, rfl⟩ := mem_ends_lit.mp h
    exact ⟨cs, hr, rfl, rfl⟩
  | one c =>
    obtain ⟨b, rest, hr, hb, rfl⟩ := mem_ends_one.mp h
    exact ⟨[b], hr, rfl, b, rfl, hb⟩
  | run c least most greedy =>
    cases most with
    | some n => simp [isPlain] at hp
    | none =>
      obtain ⟨w, rest, hr, hw, hl, rfl⟩ := mem_ends_run.mp h
      exact ⟨w, hr, rfl, hw, hl⟩
  | cat p q ihp ihq =>
    simp only [isPlain, Bool.and_eq_true] at hp
    obtain ⟨z, hz, hy⟩ := mem_ends_cat.mp h
    obtain ⟨u, hu, hup, hru⟩ := ihp hp.1 hz
    obtain ⟨v, hv, hvp, hrv⟩ := ihq hp.2 hy
    refine ⟨u ++ v, by rw [hu, hv, List.append_assoc], ?_, u, v, rfl, hru, hrv⟩
    rw [hvp, hup, List.length_append, Nat.add_assoc]
  | alt p q ihp ihq =>
    simp only [isPlain, Bool.and_eq_true] at hp
    rcases mem_ends_alt.mp h with h | h
    · obtain ⟨w, hw, hwp, hr⟩ := ihp hp.1 h
      exact ⟨w, hw, hwp, .inl hr⟩
    · obtain ⟨w, hw, hwp, hr⟩ := ihq hp.2 h
      exact ⟨w, hw, hwp, .inr hr⟩
  | group name p ih =>
    obtain ⟨z, hz, rfl⟩ := mem_ends_group.mp h
    obtain ⟨w, hw, hwp, hr⟩ := ih hp hz
    exact ⟨w, hw, hwp, hr⟩
  | rep | again | edge | look | atomic | ifGroup => simp [isPlain] at hp

theorem exists_mem_ends (hr : p.Reads w) (hx : x.rest = w ++ v) :
    ∃ y ∈ p.ends s x, y.rest = v ∧ y.pos = x.pos + w.length := by
  induction p generalizing x w v with
  | lit cs =>
    obtain rfl : w = cs := hr
    exact ⟨_, mem_ends_lit.mpr ⟨v, hx, rfl⟩, rfl, rfl⟩
  | one c =>
    obtain ⟨b, rfl, hb⟩ := hr
    exact ⟨_, mem_ends_one.mpr ⟨b, v, hx, hb, rfl⟩, rfl, rfl⟩
  | run c least most greedy =>
    cases most with
    | some n => exact hr.elim
    | none => exact ⟨_, mem_ends_run.mpr ⟨w, v, hx, hr.1, hr.2, rfl⟩, rfl, rfl⟩
  | cat p q ihp ihq =>
    obtain ⟨w₁, w₂, rfl, h₁, h₂⟩ := hr
    rw [List.append_assoc] at hx
    obtain ⟨z, hz, hzr, hzp⟩ := ihp h₁ hx
    obtain ⟨y, hy, hyr, hyp⟩ := ihq h₂ hzr
    refine ⟨y, mem_ends_cat.mpr ⟨z, hz, hy⟩, hyr, ?_⟩
    rw [hyp, hzp, List.length_append, Nat.add_assoc]
  | alt p q ihp ihq =>
    rcases hr with hr | hr
    · obtain ⟨y, hy, hyr⟩ := ihp hr hx
      exact ⟨y, mem_ends_alt.mpr (.inl hy), hyr⟩
    · obtain ⟨y, hy, hyr⟩ := ihq hr hx
      exact ⟨y, mem_ends_alt.mpr (.inr hy), hyr⟩
  | group name p ih =>
    obtain ⟨z, hz, hzr, hzp⟩ := ih hr hx
    exact ⟨_, mem_ends_group.mpr ⟨z, hz, rfl⟩, hzr, hzp⟩
  | rep | again | edge | look | atomic | ifGroup => exact hr.elim

theorem reads_of_matchAt (hp : p.isPlain = true) (ha : a ≤ s.length)
    (h : p.matchAt s a = some m) :
    ∃ w v, s.drop a = w ++ v ∧ m.start = a ∧ m.stop = a + w.length ∧ p.Reads w := by
  obtain ⟨hstart, -, -, hmem⟩ := matchAt_eq_some h
  rw [Int.toNat_natCast, Nat.min_eq_left ha] at hstart
  obtain ⟨w, hw, hwp, hr⟩ := reads_of_mem_ends hp hmem
  rw [hstart] at hw hwp
  exact ⟨w, _, hw, hstart, hwp, hr⟩

theorem reads_text_of_matchAt (hp : p.isPlain = true) {i : Int}
    (h : p.matchAt s i = some m) : p.Reads (m.text s) := by
  obtain ⟨-, -, -, hmem⟩ := matchAt_eq_some h
  obtain ⟨w, hw, hstop, hreads⟩ := reads_of_mem_ends hp hmem
  have htext : m.text s = w := Text.drop_take_eq_of_drop_eq hw hstop
  rwa [htext]

theorem matchAt_eq_none (hp : p.isPlain = true) (ha : a ≤ s.length)
    (h : ∀ w v, s.drop a = w ++ v → ¬p.Reads w) : p.matchAt s a = none := by
  cases hm : p.matchAt s a with
  | none => rfl
  | some m =>
    obtain ⟨w, v, hs, -, -, hr⟩ := reads_of_matchAt hp ha hm
    exact absurd hr (h w v hs)

theorem exists_matchAt (ha : a ≤ s.length) (hr : p.Reads w) (hs : s.drop a = w ++ v) :
    ∃ m, p.matchAt s a = some m ∧ m.start = a := by
  cases hm : p.matchAt s a with
  | none =>
    rw [matchAt_natCast ha, matchHere_eq_none_iff] at hm
    obtain ⟨y, hy, -⟩ := exists_mem_ends (s := s) (x := placeAt s a) hr hs
    rw [hm] at hy
    exact absurd hy List.not_mem_nil
  | some m =>
    obtain ⟨hstart, -⟩ := matchAt_eq_some hm
    rw [Int.toNat_natCast, Nat.min_eq_left ha] at hstart
    exact ⟨m, rfl, hstart⟩

theorem head?_ends_cat {P : Place → Prop} (hne : (p ++ q).ends s x ≠ [])
    (h : ∀ z ∈ p.ends s x, ∀ y, (q.ends s z).head? = some y → P y) :
    ∃ y, ((p ++ q).ends s x).head? = some y ∧ P y := by
  change ((p.ends s x).flatMap (q.ends s)) ≠ [] at hne
  change ∃ y, ((p.ends s x).flatMap (q.ends s)).head? = some y ∧ P y
  generalize p.ends s x = zs at hne h ⊢
  induction zs with
  | nil => exact absurd rfl hne
  | cons z zs ih =>
    rw [List.flatMap_cons] at hne ⊢
    cases hq : q.ends s z with
    | nil =>
      rw [hq, List.nil_append] at hne
      rw [List.nil_append]
      exact ih hne fun z hz => h z (List.mem_cons_of_mem _ hz)
    | cons y ys =>
      exact ⟨y, rfl, h z List.mem_cons_self y (by rw [hq]; rfl)⟩

theorem matchAt_of_head? {y : Place} (ha : a ≤ s.length)
    (h : (p.ends s (placeAt s a)).head? = some y) : p.matchAt s a = some ⟨a, y.pos, y.groups⟩ := by
  rw [placeAt] at h
  rw [matchAt_natCast ha, matchHere_eq, h]
  rfl

theorem getLast?_runEnds {c : CharClass} {least pos : Nat} (hw : ∀ b ∈ w, c.has b = true)
    (hv : ∀ b ∈ v.head?, c.has b = false) (hl : least ≤ w.length) :
    (runEnds c least none pos (w ++ v)).getLast? = some (pos + w.length, v) := by
  induction w generalizing least pos with
  | nil =>
    obtain rfl : least = 0 := Nat.le_zero.mp hl
    cases v with
    | nil => rfl
    | cons b v =>
      have hb : c.has b = false := hv b rfl
      simp [runEnds, hb]
  | cons b w ih =>
    have hb : c.has b = true := hw b List.mem_cons_self
    have hrest : (runEnds c (least - 1) none (pos + 1) (w ++ v)).getLast? =
        some (pos + 1 + w.length, v) := by
      apply ih fun b hb => hw b (List.mem_cons_of_mem _ hb)
      rw [List.length_cons] at hl
      omega
    simp only [List.cons_append, runEnds, hb, ne_eq, reduceCtorEq, not_false_eq_true, and_self,
      if_true, Option.map_none, List.getLast?_append, hrest, Option.some_or, List.length_cons]
    congr 2
    omega

theorem head?_ends_run {c : CharClass} {least : Nat} (hw : ∀ b ∈ w, c.has b = true)
    (hv : ∀ b ∈ v.head?, c.has b = false) (hl : least ≤ w.length) (hx : x.rest = w ++ v) :
    ((run c least none true).ends s x).head? = some ⟨x.pos + w.length, v, x.groups⟩ := by
  simp only [ends, if_true, hx, List.head?_reverse, List.getLast?_map, getLast?_runEnds hw hv hl,
    Option.map_some]

end CodeAudit.Pattern

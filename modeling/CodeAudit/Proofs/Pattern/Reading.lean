import CodeAudit.Proofs.Pattern.Ends

namespace CodeAudit

namespace Pattern

variable {s : Text} {x y : Place}

theorem mem_runEnds (c : CharClass) (least : Nat) (most : Option Nat) (pos : Nat) (xs : Text)
    (y : Nat × Text) :
    y ∈ runEnds c least most pos xs ↔
      ∃ w rest, xs = w ++ rest ∧ (∀ a ∈ w, c.has a = true) ∧ least ≤ w.length ∧
        (∀ n, most = some n → w.length ≤ n) ∧ y = (pos + w.length, rest) := by
  induction xs generalizing least most pos with
  | nil =>
    simp only [runEnds, List.nil_eq, List.append_eq_nil_iff]
    constructor
    · intro h
      split at h
      · rename_i hl
        exact ⟨[], [], ⟨rfl, rfl⟩, by simp, by simp [hl], by simp, by simpa using h⟩
      · simp at h
    · rintro ⟨w, rest, ⟨rfl, rfl⟩, -, hl, -, rfl⟩
      simp [Nat.le_zero.mp hl]
  | cons x xs ih =>
    simp only [runEnds, List.mem_append]
    constructor
    · rintro (h | h)
      · split at h
        · rename_i hl
          exact ⟨[], x :: xs, rfl, by simp, by simp [hl], by simp, by simpa using h⟩
        · simp at h
      · split at h
        · rename_i hx
          obtain ⟨w, rest, rfl, hw, hl, hm, rfl⟩ := (ih _ _ _).mp h
          refine ⟨x :: w, rest, rfl, ?_, ?_, ?_, ?_⟩
          · simpa [hx.2] using hw
          · simp only [List.length_cons]; omega
          · intro n hn
            have := hm (n - 1) (by simp [hn])
            have : n ≠ 0 := fun h0 => hx.1 (by simp [hn, h0])
            simp only [List.length_cons]; omega
          · simp only [List.length_cons, Prod.mk.injEq, and_true]; omega
        · simp at h
    · rintro ⟨w, rest, he, hw, hl, hm, rfl⟩
      cases w with
      | nil =>
        left
        simp only [List.nil_append] at he
        simp [Nat.le_zero.mp hl, he]
      | cons a w =>
        right
        obtain ⟨rfl, rfl⟩ := List.cons.inj he
        have h0 : most ≠ some 0 := fun h0 => by simpa using hm 0 h0
        rw [if_pos ⟨h0, hw x (by simp)⟩, ih]
        refine ⟨w, rest, rfl, fun a ha => hw a (by simp [ha]), ?_, ?_, ?_⟩
        · simp only [List.length_cons] at hl; omega
        · intro n hn
          obtain ⟨n', hn', rfl⟩ := Option.map_eq_some_iff.mp hn
          have := hm n' hn'
          simp only [List.length_cons] at this; omega
        · simp only [List.length_cons, Prod.mk.injEq, and_true]; omega

theorem mem_ends_lit {cs : List Char} :
    y ∈ (lit cs).ends s x ↔
      ∃ rest, x.rest = cs ++ rest ∧ y = ⟨x.pos + cs.length, rest, x.groups⟩ := by
  change y ∈ (if cs.isPrefixOf x.rest then
    [(⟨x.pos + cs.length, x.rest.drop cs.length, x.groups⟩ : Place)] else []) ↔ _
  constructor
  · intro h
    split at h
    · rename_i hp
      obtain ⟨rest, hr⟩ := List.isPrefixOf_iff_prefix.mp hp
      exact ⟨rest, hr.symm, by simpa [← hr] using h⟩
    · simp at h
  · rintro ⟨rest, hr, rfl⟩
    simp [hr, List.isPrefixOf_iff_prefix]

theorem mem_ends_one {c : CharClass} :
    y ∈ (one c).ends s x ↔
      ∃ a rest, x.rest = a :: rest ∧ c.has a = true ∧ y = ⟨x.pos + 1, rest, x.groups⟩ := by
  obtain ⟨pos, rest, groups⟩ := x
  cases rest with
  | nil =>
    change y ∈ [] ↔ _
    simp
  | cons a rest =>
    change y ∈ (if c.has a then [(⟨pos + 1, rest, groups⟩ : Place)] else []) ↔ _
    constructor
    · intro h
      by_cases ha : c.has a
      · exact ⟨a, rest, rfl, ha, by simpa [ha] using h⟩
      · simp [ha] at h
    · rintro ⟨b, tail, he, hb, rfl⟩
      obtain ⟨rfl, rfl⟩ := List.cons.inj he
      simp [hb]

theorem mem_ends_run_iff {c : CharClass} {least : Nat} {most : Option Nat} {greedy : Bool} :
    y ∈ (run c least most greedy).ends s x ↔
      ∃ z ∈ runEnds c least most x.pos x.rest, y = ⟨z.1, z.2, x.groups⟩ := by
  have hmap : y ∈ (runEnds c least most x.pos x.rest).map (fun z => ⟨z.1, z.2, x.groups⟩) ↔
      ∃ z ∈ runEnds c least most x.pos x.rest, y = ⟨z.1, z.2, x.groups⟩ :=
    List.mem_map.trans (exists_congr fun _ => and_congr_right fun _ => eq_comm)
  cases greedy with
  | false => exact hmap
  | true => exact List.mem_reverse.trans hmap

theorem mem_ends_run {c : CharClass} {least : Nat} {greedy : Bool} :
    y ∈ (run c least none greedy).ends s x ↔
      ∃ w rest, x.rest = w ++ rest ∧ (∀ a ∈ w, c.has a = true) ∧ least ≤ w.length ∧
        y = ⟨x.pos + w.length, rest, x.groups⟩ := by
  rw [mem_ends_run_iff]
  constructor
  · rintro ⟨z, hz, rfl⟩
    obtain ⟨w, rest, hr, hw, hl, -, rfl⟩ := (mem_runEnds ..).mp hz
    exact ⟨w, rest, hr, hw, hl, rfl⟩
  · rintro ⟨w, rest, hr, hw, hl, rfl⟩
    exact ⟨(x.pos + w.length, rest), (mem_runEnds ..).mpr ⟨w, rest, hr, hw, hl, by simp, rfl⟩, rfl⟩

theorem mem_ends_cat {p q : Pattern} :
    y ∈ (p ++ q).ends s x ↔ ∃ z ∈ p.ends s x, y ∈ q.ends s z :=
  List.mem_flatMap

theorem mem_ends_alt {p q : Pattern} :
    y ∈ (alt p q).ends s x ↔ y ∈ p.ends s x ∨ y ∈ q.ends s x :=
  List.mem_append

theorem mem_ends_group {name : String} {p : Pattern} :
    y ∈ (group name p).ends s x ↔
      ∃ z ∈ p.ends s x, y = ⟨z.pos, z.rest, (name, x.pos, z.pos) :: z.groups⟩ :=
  List.mem_map.trans (exists_congr fun _ => and_congr_right fun _ => eq_comm)

end Pattern

def Place.Onward (x y : Place) : Prop :=
  ∃ w, x.rest = w ++ y.rest ∧ y.pos = x.pos + w.length

namespace Place.Onward

variable {x y z : Place}

theorem refl (x : Place) : x.Onward x := ⟨[], rfl, rfl⟩

theorem trans (hxy : x.Onward y) (hyz : y.Onward z) : x.Onward z := by
  obtain ⟨v, hv, hvp⟩ := hxy
  obtain ⟨w, hw, hwp⟩ := hyz
  exact ⟨v ++ w, by rw [hv, hw, List.append_assoc], by rw [hwp, hvp, List.length_append]; omega⟩

theorem drop (x : Place) (n : Nat) (hn : n ≤ x.rest.length) (gs : List (String × Nat × Nat)) :
    x.Onward ⟨x.pos + n, x.rest.drop n, gs⟩ :=
  ⟨x.rest.take n, by simp, by simp [hn]⟩

end Place.Onward

namespace Pattern

theorem repeatEnds_onward {body : Place → List Place} (hb : ∀ x, ∀ y ∈ body x, x.Onward y)
    {least : Nat} {most : Option Nat} {greedy : Bool} {fuel count : Nat} {last : Option Nat}
    {x y : Place} (h : y ∈ repeatEnds body least most greedy fuel count last x) : x.Onward y := by
  induction fuel generalizing count last x with
  | zero => simp [repeatEnds] at h
  | succ fuel ih =>
    simp only [repeatEnds] at h
    split at h
    · obtain ⟨z, hz, hy⟩ := List.mem_flatMap.mp h
      exact (hb x z hz).trans (ih hy)
    · have hy : y = x ∨ ∃ z ∈ body x, ∃ l,
          y ∈ repeatEnds body least most greedy fuel (count + 1) l z := by
        split at h
        · rcases List.mem_append.mp h with h | h
          · split at h
            · obtain ⟨z, hz, hy⟩ := List.mem_flatMap.mp h
              exact .inr ⟨z, hz, _, hy⟩
            · simp at h
          · exact .inl (by simpa using h)
        · rcases List.mem_cons.mp h with h | h
          · exact .inl h
          · split at h
            · obtain ⟨z, hz, hy⟩ := List.mem_flatMap.mp h
              exact .inr ⟨z, hz, _, hy⟩
            · simp at h
      rcases hy with rfl | ⟨z, hz, l, hy⟩
      · exact .refl _
      · exact (hb x z hz).trans (ih hy)

theorem ends_onward {s : Text} {p : Pattern} {x y : Place} (h : y ∈ p.ends s x) : x.Onward y := by
  induction p generalizing x y with
  | lit cs =>
    obtain ⟨rest, hr, rfl⟩ := mem_ends_lit.mp h
    exact ⟨cs, hr, rfl⟩
  | one c =>
    obtain ⟨a, rest, hr, -, rfl⟩ := mem_ends_one.mp h
    exact ⟨[a], hr, rfl⟩
  | run c least most greedy =>
    obtain ⟨z, hz, rfl⟩ := mem_ends_run_iff.mp h
    obtain ⟨w, rest, hr, -, -, -, rfl⟩ := (mem_runEnds ..).mp hz
    exact ⟨w, hr, rfl⟩
  | cat p q ihp ihq =>
    obtain ⟨z, hz, hy⟩ := mem_ends_cat.mp h
    exact (ihp hz).trans (ihq hy)
  | alt p q ihp ihq => exact (mem_ends_alt.mp h).elim ihp ihq
  | rep p least most greedy ih => exact repeatEnds_onward (fun x y hy => ih hy) h
  | group name p ih =>
    obtain ⟨z, hz, rfl⟩ := mem_ends_group.mp h
    obtain ⟨w, hr, hp⟩ := ih hz
    exact ⟨w, hr, hp⟩
  | again name caseless =>
    simp only [ends] at h
    split at h
    · simp at h
    · rename_i a b hg
      split at h
      · rename_i heq
        have hlen : ((s.take b).drop a).length ≤ x.rest.length := by
          have hl : ((s.take b).drop a).length = (x.rest.take ((s.take b).drop a).length).length := by
            simp only [Bool.or_eq_true, Bool.and_eq_true, beq_iff_eq] at heq
            rcases heq with heq | ⟨-, heq⟩
            · exact congrArg List.length heq
            · simpa only [List.length_map] using congrArg List.length heq
          rw [List.length_take] at hl
          omega
        rw [List.mem_singleton.mp h]
        exact Place.Onward.drop x _ hlen _
      · simp at h
  | edge e =>
    simp only [ends] at h
    split at h <;> simp only [List.mem_singleton, List.not_mem_nil] at h
    exact h ▸ .refl _
  | look back expected p ih =>
    simp only [ends] at h
    split at h <;> split at h <;> simp only [List.mem_singleton, List.not_mem_nil] at h
    · rw [h]; exact ⟨[], rfl, rfl⟩
    · exact h ▸ .refl _
  | atomic p ih =>
    simp only [ends, Option.mem_toList] at h
    exact ih (List.mem_of_mem_head? h)
  | ifGroup name p q ihp ihq =>
    simp only [ends] at h
    split at h
    · exact ihp h
    · exact ihq h

end Pattern

end CodeAudit
